import TimeSeriesEngine.IngestStep

/-!
# The incremental cache against recomputation

A batch that only appends to a sequence is checked over a range; the entry of a
rule is overlaid with what that check finds.  `cache_exact_iff` says when the
entry is again the full check of the retained points: always, except for one
arithmetic case.  The query asks for `maximum offset + 1` context points in 64
bits, so a rule with offset `2^64 - 1` makes the whole group ask for none.

* `incremental_group` — which rules share a query with a rule;
* `scanned_iff` — which windows of the retained points the shared check covers;
* `cache_exact_iff` — the step.
-/

namespace ConstraintCache

open TseTypes KeyedTable OrderedSeries SlidingWindows SeqContent HotWindow WindowContent
open WindowUpdate ConstraintCheck Registry UpdateRange DerivedSeries HotIngest IngestFrame
open ConstraintScan RuleGroups GroupScan IngestStep

/-- The cached violations of a rule. -/
def cachedViolations (p : ProjectId) (r : ConstraintRule) (core : CoreService) :
    List ConstraintViolation :=
  (stateOf r.constraintId (cachedStates p core)).violations

/-- The cached violations are those of a full check of the retained points. -/
structure CacheExact (p : ProjectId) (r : ConstraintRule) (s : SequenceId) (core : CoreService) :
    Prop where
  checks : isSuccessful (recheck p r s (retained p s core.window)).operation.code = true
  same : cachedViolations p r core = (recheck p r s (retained p s core.window)).violations

/-! ## The rules that share a query -/

/-- The enabled rules that are checked in one group with `r` when every sequence
    is only appended to. -/
def checkedTogether (rules : List ConstraintRule) (update : WindowUpdateResult)
    (r : ConstraintRule) : List ConstraintRule :=
  if r.orGroupId.isEmpty then
    rules.filter fun mate =>
      mate.orGroupId.isEmpty && !isAggregate mate &&
        decide ((sequenceIdsFor rules mate).length = 1) &&
        (sequenceIdsFor rules mate).all fun t => (sequenceUpdateOf t update).incrementalSafe
  else [r]

theorem length_one {α : Type} {xs : List α} (h : xs.length = 1) : ∃ x, xs = [x] :=
  List.length_eq_one_iff.mp h

/-- A rule on a changed sequence is evaluated. -/
theorem evaluated_of_changed {update : WindowUpdateResult} {rules : List ConstraintRule}
    (states : Table String CachedConstraintState) {rule : ConstraintRule} (hrule : rule ∈ rules)
    {t : SequenceId} (hids : sequenceIdsFor rules rule = [t])
    (hchanged : t ∈ update.changedSequenceIds) : rule ∈ evaluatedRules rules update states := by
  have haffected : wasAffected update (sequenceIdsFor rules rule) = true := by
    rw [hids]
    simp [wasAffected, touches, hchanged]
  refine List.mem_filter.mpr ⟨List.mem_filter.mpr ⟨hrule, ?_⟩, ?_⟩
  · rw [hids]
    refine Bool.and_eq_true_iff.mpr ⟨rfl, decide_eq_true ?_⟩
    refine List.mem_map_of_mem (List.mem_filter.mpr ⟨hrule, ?_⟩)
    rw [haffected]
    rfl
  · unfold isEvaluated
    rw [haffected]
    rfl

/-- A sequence with a safe update has changed. -/
theorem changed_of_safe {p : ProjectId} {data : TimeseriesBatch} {override : Option Int}
    {service : WindowService} {update : WindowUpdateResult}
    (hrep : Reported p data override service update) {t : SequenceId}
    (ht : (sequenceUpdateOf t update).incrementalSafe = true) :
    t ∈ update.changedSequenceIds := by
  obtain ⟨hne, -⟩ := hrep.safe t ht
  obtain ⟨q, hq⟩ := List.exists_mem_of_ne_nil _ hne
  exact (hrep.changed t).mpr (Or.inl ⟨q, (mem_incomingFor.mp hq).1, (mem_incomingFor.mp hq).2⟩)

/-- The safe rules among the ordinary single-sequence ones. -/
theorem safeRules_single {p : ProjectId} {data : TimeseriesBatch} {override : Option Int}
    {service : WindowService} {update : WindowUpdateResult}
    (hrep : Reported p data override service update) (hkeys : update.sequenceUpdates.keys ≠ [])
    (rules : List ConstraintRule) (states : Table String CachedConstraintState) :
    safeRules rules update ((singleRules rules update states).filter fun rule =>
        rule.orGroupId.isEmpty) =
      rules.filter fun mate =>
        mate.orGroupId.isEmpty && !isAggregate mate &&
          decide ((sequenceIdsFor rules mate).length = 1) &&
          (sequenceIdsFor rules mate).all fun t => (sequenceUpdateOf t update).incrementalSafe := by
  rw [safeRules, singleRules, evaluatedRules, selectRules, List.filter_filter, List.filter_filter,
    List.filter_filter, List.filter_filter]
  refine List.filter_congr fun mate hmate => ?_
  by_cases hlen : (sequenceIdsFor rules mate).length = 1
  swap
  · simp [hlen]
  obtain ⟨t, ht⟩ := length_one hlen
  by_cases hsafe : (sequenceUpdateOf t update).incrementalSafe = true
  · obtain ⟨range, hrange, -⟩ := safe_range hrep hkeys hsafe
    have heval := evaluated_of_changed states hmate ht (changed_of_safe hrep hsafe)
    obtain ⟨hsel, hev⟩ := List.mem_filter.mp heval
    have hsel' := (List.mem_filter.mp hsel).2
    rw [hsel', hev]
    simp [ruleRange, ht, hrange, hsafe]
  · have hnone : ruleRange rules update mate = none := by
      rw [ruleRange, ht]
      cases hr : incrementalRangeFor update [t] with
      | none => rfl
      | some range => exact absurd (safe_of_range hkeys hr) hsafe
    simp [hnone, ht, hsafe]

/-- **The group of a rule on an appended sequence.** -/
theorem incremental_group {p : ProjectId} {data : TimeseriesBatch} {override : Option Int}
    {service : WindowService} {update : WindowUpdateResult}
    (hrep : Reported p data override service update) {registry : RuntimeConfigRegistry}
    (states : Table String CachedConstraintState) {r : ConstraintRule} {s : SequenceId}
    (hids : ((allEnabledConstraints p registry).map ConstraintRule.constraintId).Nodup)
    (hr : r ∈ allEnabledConstraints p registry) (hreads : SampleRuleOn r s)
    (hsafe : (sequenceUpdateOf s update).incrementalSafe = true) :
    let rules := allEnabledConstraints p registry
    let mates := checkedTogether rules update r
    r ∈ mates ∧
      makeGroup rules mates (unionRange (mates.filterMap (ruleRange rules update))) ∈
        (prepareCheck p registry update states).groups ∧
      SingleGroup rules update mates
        (makeGroup rules mates (unionRange (mates.filterMap (ruleRange rules update)))) := by
  intro rules mates
  have hkeys := keys_of_safe hsafe
  have hidsFor : sequenceIdsFor rules r = [s] := by
    rw [sequenceIdsFor_of_mem hids hr]
    exact mappedSequenceIds_single hreads
  have hsingle : r ∈ singleRules rules update states := by
    refine List.mem_filter.mpr ⟨evaluated_of_changed states hr hidsFor (changed_of_safe hrep hsafe), ?_⟩
    rw [isAggregate_samples hreads.samples, hidsFor]
    rfl
  have hrange : (ruleRange rules update r).isSome = true := by
    obtain ⟨range, hrange, -⟩ := safe_range hrep hkeys hsafe
    rw [ruleRange, hidsFor, hrange]
    rfl
  have hmember : r ∈ mates := by
    show r ∈ checkedTogether rules update r
    unfold checkedTogether
    split
    · rename_i hord
      refine List.mem_filter.mpr ⟨hr, ?_⟩
      rw [hord, isAggregate_samples hreads.samples, hidsFor]
      simp [hsafe]
    · exact List.mem_singleton_self r
  have hgroup : makeGroup rules mates (unionRange (mates.filterMap (ruleRange rules update))) ∈
      addWithoutMixingOrClauses rules update (singleRules rules update states) := by
    unfold addWithoutMixingOrClauses
    show makeGroup rules (checkedTogether rules update r) (unionRange
      ((checkedTogether rules update r).filterMap (ruleRange rules update))) ∈ _
    unfold checkedTogether
    by_cases hord : r.orGroupId.isEmpty = true
    · rw [if_pos hord, ← safeRules_single hrep hkeys rules states]
      refine List.mem_append.mpr (Or.inr ?_)
      unfold addRuleGroups
      have hne : (safeRules rules update ((singleRules rules update states).filter fun rule =>
          rule.orGroupId.isEmpty)).isEmpty = false := by
        have hin : r ∈ safeRules rules update ((singleRules rules update states).filter
            fun rule => rule.orGroupId.isEmpty) :=
          List.mem_filter.mpr ⟨List.mem_filter.mpr ⟨hsingle, hord⟩, hrange⟩
        simpa using List.ne_nil_of_mem hin
      simp [hne]
    · rw [if_neg hord]
      refine List.mem_append.mpr (Or.inl (List.mem_flatMap.mpr ⟨r, ?_, ?_⟩))
      · exact List.mem_filter.mpr ⟨hsingle, by simpa using hord⟩
      · have hone : safeRules rules update [r] = [r] := by
          rw [safeRules, List.filter_cons, if_pos hrange, List.filter_nil]
        unfold addRuleGroups
        simp [hone]
  refine ⟨hmember, List.mem_append.mpr (Or.inl hgroup), ?_⟩
  have hshape := mem_addWithoutMixing_single hgroup (fun q hq => ?_) ?_
  · rw [(makeGroup_sequences rules mates _).2] at hshape
    exact hshape
  · obtain ⟨hq1, hq2⟩ := List.mem_filter.mp hq
    exact ⟨evaluatedRules_subset hq1, of_decide_eq_true (Bool.and_eq_true_iff.mp hq2).2⟩
  · exact (evaluatedRules_nodup hids update states).sublist (List.filter_sublist.map _)

/-! ## The context of a query -/

/-- A running maximum reaches its bound when one of the values does. -/
theorem foldl_max_spec {α : Type} (f : α → Nat) {top : Nat} {xs : List α}
    (hf : ∀ x ∈ xs, f x ≤ top) {n : Nat} (hn : n ≤ top) :
    xs.foldl (fun largest x => max largest (f x)) n ≤ top ∧
      (xs.foldl (fun largest x => max largest (f x)) n = top ↔
        n = top ∨ ∃ x ∈ xs, f x = top) := by
  induction xs generalizing n with
  | nil => exact ⟨hn, by simp⟩
  | cons x xs ih =>
      have hx := hf x (List.mem_cons_self ..)
      obtain ⟨h1, h2⟩ := ih (fun y hy => hf y (List.mem_cons_of_mem _ hy))
        (Nat.max_le.mpr ⟨hn, hx⟩)
      refine ⟨h1, h2.trans ?_⟩
      have hmax : max n (f x) = top ↔ n = top ∨ f x = top := by
        clear h2
        omega
      rw [hmax, or_assoc]
      simp

/-- The largest offset is the top number when a term has it. -/
theorem maximumOffset_top (rule : ConstraintRule) :
    maximumOffset rule ≤ uint64Max ∧
      (maximumOffset rule = uint64Max ↔ ∃ term ∈ rule.terms, term.sampleOffset = uint64Max) := by
  obtain ⟨h1, h2⟩ := foldl_max_spec ConstraintTerm.sampleOffset
    (fun term (_ : term ∈ rule.terms) => term.sampleOffset_le) (Nat.zero_le uint64Max)
  refine ⟨h1, h2.trans ?_⟩
  have h0 : ¬ (0 : Nat) = uint64Max := by decide
  simp [h0]

/-- Some rule of the group has a term with the largest offset there is. -/
def OffsetWraps (group : List ConstraintRule) : Prop :=
  ∃ rule ∈ group, ∃ term ∈ rule.terms, term.sampleOffset = uint64Max

instance (group : List ConstraintRule) : Decidable (OffsetWraps group) := by
  unfold OffsetWraps
  infer_instance

/-- The context is `offset + 1` points, or none at all when that wraps. -/
theorem contextPoints_cases (group : List ConstraintRule) :
    (OffsetWraps group ∧ contextPoints group = 0) ∨
      (¬ OffsetWraps group ∧ contextPoints group = groupOffset group + 1) := by
  obtain ⟨h1, h2⟩ := foldl_max_spec maximumOffset
    (fun rule (_ : rule ∈ group) => (maximumOffset_top rule).1) (Nat.zero_le uint64Max)
  have h0 : ¬ (0 : Nat) = uint64Max := by decide
  have hwraps : groupOffset group = uint64Max ↔ OffsetWraps group := by
    rw [groupOffset, h2, or_iff_right h0]
    exact exists_congr fun rule => and_congr_right fun _ => (maximumOffset_top rule).2
  rw [← hwraps]
  unfold contextPoints
  by_cases he : groupOffset group = uint64Max
  · refine Or.inl ⟨he, ?_⟩
    rw [he]
    exact Nat.mod_self _
  · refine Or.inr ⟨he, Nat.mod_eq_of_lt ?_⟩
    have hle : groupOffset group ≤ uint64Max := h1
    omega

theorem maximumOffset_le_groupOffset {group : List ConstraintRule} {rule : ConstraintRule}
    (h : rule ∈ group) : maximumOffset rule ≤ groupOffset group :=
  le_foldl_max maximumOffset h 0

/-! ## The windows a shared check covers -/

theorem le_queryEnd (finish : Timestamp) : finish ≤ queryEnd finish := by
  unfold queryEnd
  split
  · exact le_refl _
  · exact le_of_lt (lt_add_one finish)

/-- Points at ascending times have one point at a time. -/
theorem length_le_one {xs : List RawTimeseriesPoint} (h : Ascending RawTimeseriesPoint.time xs)
    {t : Timestamp} (ht : ∀ q ∈ xs, q.time = t) : xs.length ≤ 1 := by
  cases xs with
  | nil => exact Nat.zero_le _
  | cons x xs =>
      cases xs with
      | nil => exact Nat.le_refl _
      | cons y ys =>
          have hlt := ((ascending_cons _).mp h).1 y (List.mem_cons_self ..)
          rw [ht x (List.mem_cons_self ..), ht y (by simp)] at hlt
          exact absurd hlt (lt_irrefl _)

/-- The slice of a group whose range ends behind the last point. -/
theorem groupSlice_range {p : ProjectId} {service : WindowService} (watermark : Timestamp)
    (rules mates : List ConstraintRule) {range : IncrementalRange} {s : SequenceId}
    (hasc : Ascending RawTimeseriesPoint.time (retained p s service))
    (hend : ∀ q ∈ retained p s service, q.time ≤ range.endTime) :
    (OffsetWraps mates → groupSlice p service watermark (makeGroup rules mates (some range)) s =
        (retained p s service).filter fun q =>
          decide (range.startTime ≤ q.time) && decide (q.time < queryEnd range.endTime)) ∧
      (¬ OffsetWraps mates →
        groupSlice p service watermark (makeGroup rules mates (some range)) s =
          lastN (groupOffset mates + 1)
            (below RawTimeseriesPoint.time range.startTime (retained p s service)) ++
          atOrAbove RawTimeseriesPoint.time range.startTime (retained p s service)) := by
  have hslice : groupSlice p service watermark (makeGroup rules mates (some range)) s =
      sliceOf range.startTime (queryEnd range.endTime) (contextPoints mates)
        (contextPoints mates) (retained p s service) := rfl
  rw [hslice]
  rcases contextPoints_cases mates with ⟨hw, hc⟩ | ⟨hw, hc⟩
  · rw [hc]
    exact ⟨fun _ => sliceOf_range hasc _ _, fun h => absurd hw h⟩
  · rw [hc]
    refine ⟨fun h => absurd h hw, fun _ => ?_⟩
    -- at most the point at the end of time lies behind the query
    have hrest := (hasc.atOrAbove _ range.startTime)
    have hone : (atOrAbove RawTimeseriesPoint.time (queryEnd range.endTime)
        (atOrAbove RawTimeseriesPoint.time range.startTime (retained p s service))).length ≤ 1 := by
      refine length_le_one (hrest.atOrAbove _ _) (t := range.endTime) fun q hq => ?_
      obtain ⟨hq1, hq2⟩ := (hrest.mem_atOrAbove _).mp hq
      have hle := hend q ((hasc.mem_atOrAbove _).mp hq1).1
      exact le_antisymm hle (le_trans (le_queryEnd _) hq2)
    rw [sliceOf, List.take_of_length_le (by omega), List.append_assoc,
      below_append_atOrAbove]

/-- **Which windows of the retained points a shared check covers.** -/
theorem scanned_covers {p : ProjectId} {service : WindowService} {watermark : Timestamp}
    {rules mates : List ConstraintRule} {range : IncrementalRange} {r : ConstraintRule}
    {s : SequenceId} {execution : ConstraintGroupExecution} {scanned : List RawTimeseriesPoint}
    (hasc : Ascending RawTimeseriesPoint.time (retained p s service))
    (hend : ∀ q ∈ retained p s service, q.time ≤ range.endTime) (hr : r ∈ mates)
    (hscan : Scanned p r s (some range)
      (groupSlice p service watermark (makeGroup rules mates (some range)) s) execution scanned) :
    (∀ w ∈ windows (maximumOffset r) scanned,
        w ∈ windows (maximumOffset r) (retained p s service)) ∧
      ∀ w ∈ windows (maximumOffset r) (retained p s service),
        (¬ OffsetWraps mates → (∃ q ∈ w, range.startTime ≤ q.time) →
          w ∈ windows (maximumOffset r) scanned) ∧
        (OffsetWraps mates → (w ∈ windows (maximumOffset r) scanned ↔
          ∀ q ∈ w, range.startTime ≤ q.time ∧ q.time < queryEnd range.endTime)) := by
  obtain ⟨hwrap, hplain⟩ := groupSlice_range watermark rules mates hasc hend
  have hwithin := sliceOf_within (queryStart p (makeGroup rules mates (some range)).query watermark
      service) (queryFinish (makeGroup rules mates (some range)).query watermark)
    (makeGroup rules mates (some range)).query.precedingPoints
    (makeGroup rules mates (some range)).query.followingPoints (retained p s service)
  -- the last point of a window is its newest
  have hlast : ∀ w ∈ windows (maximumOffset r) (retained p s service),
      ∃ last ∈ w, w.getLast? = some last ∧ ∀ q ∈ w, q.time ≤ last.time := by
    intro w hw
    have hwasc := ascending_of_mem_windows _ hasc hw
    have hne : w ≠ [] := by
      intro he
      rw [he] at hw
      exact nomatch (mem_windows.mp hw).2
    refine ⟨w.getLast hne, List.getLast_mem hne, List.getLast?_eq_some_getLast hne, ?_⟩
    intro q hq
    rw [← List.dropLast_append_getLast hne] at hq hwasc
    rcases List.mem_append.mp hq with hq' | hq'
    · exact le_of_lt ((List.pairwise_append.mp hwasc).2.2 q hq' _ (List.mem_singleton_self _))
    · rw [List.mem_singleton.mp hq']
  refine ⟨fun w hw => windows_mono (hscan.suffix.isInfix.trans hwithin) hw, fun w hw => ?_⟩
  obtain ⟨last, hmem, hget, hmax⟩ := hlast w hw
  constructor
  · rintro hno ⟨q, hq, hle⟩
    have hreach : range.startTime ≤ last.time := le_trans hle (hmax q hq)
    refine hscan.reach range rfl w ?_ ⟨last, hget, hreach⟩
    rw [hplain hno]
    refine windows_lastN_append (Nat.le_succ_of_le (maximumOffset_le_groupOffset hr)) ?_ ?_
    · rw [below_append_atOrAbove]
      exact hw
    · intro hfront
      have := (mem_windows.mp hfront).1.subset hmem
      exact absurd ((hasc.mem_below _).mp this).2 (not_lt.mpr hreach)
  · intro hyes
    have hsl := hwrap hyes
    constructor
    · intro hs q hq
      have hq' := hscan.suffix.subset ((mem_windows.mp hs).1.subset hq)
      rw [hsl] at hq'
      simpa using (List.mem_filter.mp hq').2
    · intro hall
      refine hscan.reach range rfl w ?_ ⟨last, hget, (hall last hmem).1⟩
      rw [hsl]
      exact windows_filter hw fun q hq => by simpa using hall q hq

/-! ## The range of a group -/

/-- Older than everything new in the listed sequences, none of which loses points. -/
def InFront (p : ProjectId) (data : TimeseriesBatch) (service : WindowService)
    (ids : List SequenceId) (q : RawTimeseriesPoint) : Prop :=
  ∀ t ∈ ids, (∀ x ∈ incomingFor t data.points, q.time < x.time) ∧
    ¬ ∃ x ∈ grown p t data service, x.time < startAfter p data none service

/-- Rules checked together are single-sequence rules with a safe update. -/
theorem mem_checkedTogether {rules : List ConstraintRule} {update : WindowUpdateResult}
    {r mate : ConstraintRule} {s : SequenceId} (hids : sequenceIdsFor rules r = [s])
    (hsafe : (sequenceUpdateOf s update).incrementalSafe = true)
    (h : mate ∈ checkedTogether rules update r) :
    ∃ t, sequenceIdsFor rules mate = [t] ∧ (sequenceUpdateOf t update).incrementalSafe = true := by
  unfold checkedTogether at h
  split at h
  · obtain ⟨h12, h3⟩ := Bool.and_eq_true_iff.mp (List.mem_filter.mp h).2
    obtain ⟨t, ht⟩ := length_one (of_decide_eq_true (Bool.and_eq_true_iff.mp h12).2)
    refine ⟨t, ht, ?_⟩
    rw [ht] at h3
    simpa using h3
  · rw [List.mem_singleton.mp h]
    exact ⟨s, hids, hsafe⟩

/-- The union of the ranges of some rules, and what it covers. -/
theorem union_range {p : ProjectId} {data : TimeseriesBatch} {service : WindowService}
    {update : WindowUpdateResult} (hrep : Reported p data none service update)
    {rules mates : List ConstraintRule} (hne : mates ≠ [])
    (hmates : ∀ mate ∈ mates, ∃ t, sequenceIdsFor rules mate = [t] ∧
      (sequenceUpdateOf t update).incrementalSafe = true) :
    ∃ range, unionRange (mates.filterMap (ruleRange rules update)) = some range ∧
      (∀ q : RawTimeseriesPoint, startAfter p data none service ≤ q.time →
        (q.time < range.startTime ↔
          InFront p data service (mates.flatMap (sequenceIdsFor rules)) q)) ∧
      (∀ mate ∈ mates, ∀ t ∈ sequenceIdsFor rules mate, ∀ q ∈ incomingFor t data.points,
        range.startTime ≤ q.time ∧ q.time ≤ range.endTime) ∧
      ∃ q ∈ data.points, q.time = range.endTime := by
  have hone : ∀ mate ∈ mates, ∃ t own, sequenceIdsFor rules mate = [t] ∧
      ruleRange rules update mate = some own ∧
      SafeRange p t data service (startAfter p data none service) own := by
    intro mate hmate
    obtain ⟨t, ht, hsafe⟩ := hmates mate hmate
    obtain ⟨own, hown, hspec⟩ := safe_range hrep (keys_of_safe hsafe) hsafe
    exact ⟨t, own, ht, by rw [ruleRange, ht, hown], hspec⟩
  have hmem : ∀ own, own ∈ mates.filterMap (ruleRange rules update) ↔
      ∃ mate ∈ mates, ruleRange rules update mate = some own := fun own => List.mem_filterMap
  have hne' : mates.filterMap (ruleRange rules update) ≠ [] := by
    obtain ⟨mate, hmate⟩ := List.exists_mem_of_ne_nil _ hne
    obtain ⟨t, own, -, hown, -⟩ := hone mate hmate
    exact List.ne_nil_of_mem ((hmem own).mpr ⟨mate, hmate, hown⟩)
  obtain ⟨range, heq, hstart, hends, last, hlast, hlastEnd⟩ := unionRange_spec hne'
  refine ⟨range, heq, fun q hq => ?_, fun mate hmate t ht x hx => ?_, ?_⟩
  · rw [hstart]
    constructor
    · intro h t ht
      obtain ⟨mate, hmate, hin⟩ := List.mem_flatMap.mp ht
      obtain ⟨t', own, ht', hown, hspec⟩ := hone mate hmate
      rw [ht', List.mem_singleton] at hin
      rw [hin]
      exact (hspec.front _ hq).mp (h own ((hmem own).mpr ⟨mate, hmate, hown⟩))
    · intro h own hown
      obtain ⟨mate, hmate, hown'⟩ := (hmem own).mp hown
      obtain ⟨t, own', ht, hown'', hspec⟩ := hone mate hmate
      rw [hown''] at hown'
      rw [← Option.some.inj hown']
      refine (hspec.front _ hq).mpr (h t (List.mem_flatMap.mpr ⟨mate, hmate, ?_⟩))
      rw [ht]
      exact List.mem_singleton_self t
  · obtain ⟨t', own, ht', hown, hspec⟩ := hone mate hmate
    rw [ht', List.mem_singleton] at ht
    rw [ht] at hx
    have hownMem := (hmem own).mpr ⟨mate, hmate, hown⟩
    refine ⟨?_, le_trans (hspec.covers x hx).2 (hends own hownMem)⟩
    refine le_trans ?_ (hspec.covers x hx).1
    by_contra hlt
    exact absurd ((hstart own.startTime).mp (not_le.mp hlt) own hownMem) (lt_irrefl _)
  · obtain ⟨mate, hmate, hown⟩ := (hmem last).mp hlast
    obtain ⟨t, own, -, hown', hspec⟩ := hone mate hmate
    rw [hown'] at hown
    obtain ⟨q, hq, hqt⟩ := hspec.last
    refine ⟨q, (mem_incomingFor.mp hq).1, ?_⟩
    rw [hqt, Option.some.inj hown, hlastEnd]

/-! ## The entry after a batch -/

/-- The rules checked together with `r` in a batch, and the sequences they read. -/
def mates (p : ProjectId) (data : TimeseriesBatch) (core : CoreService) (r : ConstraintRule) :
    List ConstraintRule :=
  checkedTogether (allEnabledConstraints p core.configs) (batchReport p data core) r

/-- The sequences of the rules that share a group with `r`. -/
def mateSequences (p : ProjectId) (data : TimeseriesBatch) (core : CoreService)
    (r : ConstraintRule) : List SequenceId :=
  (mates p data core r).flatMap (sequenceIdsFor (allEnabledConstraints p core.configs))

/-- **What a publication knows** about a rule whose sequence was appended to. -/
structure Rescanned (p : ProjectId) (r : ConstraintRule) (s : SequenceId)
    (data : TimeseriesBatch) (core : CoreService) (entry : CachedConstraintState)
    (range : IncrementalRange) (scanned : List RawTimeseriesPoint) : Prop where
  front : ∀ q : RawTimeseriesPoint, startAfter p data none core.window ≤ q.time →
    (q.time < range.startTime ↔ InFront p data core.window (mateSequences p data core r) q)
  covers : ∀ q ∈ incomingFor s data.points, range.startTime ≤ q.time ∧ q.time ≤ range.endTime
  last : ∃ q ∈ data.points, q.time = range.endTime
  ascending : Ascending RawTimeseriesPoint.time scanned
  inside : ∀ w ∈ windows (maximumOffset r) scanned,
    w ∈ windows (maximumOffset r) (retainedAfter p s data core.window)
  reached : ∀ w ∈ windows (maximumOffset r) (retainedAfter p s data core.window),
    (¬ OffsetWraps (mates p data core r) → (∃ q ∈ w, range.startTime ≤ q.time) →
      w ∈ windows (maximumOffset r) scanned) ∧
    (OffsetWraps (mates p data core r) → (w ∈ windows (maximumOffset r) scanned ↔
      ∀ q ∈ w, range.startTime ≤ q.time ∧ q.time < queryEnd range.endTime))
  readable : ∀ w ∈ windows (maximumOffset r) scanned, Readable r w
  entry : entry =
    { violations :=
        assignAll ConstraintViolation.anchorTime (violationsOver r scanned)
          (keptViolations (batchReport p data core) (some range) (cachedViolations p r core))
      updateGeneration := (batchReport p data core).updateGeneration
      initialized := true }

/-- What is retained in front of an append is older than everything new. -/
theorem retained_lt_incoming {p : ProjectId} {s : SequenceId} {data : TimeseriesBatch}
    {service : WindowService} (hv : AllValid service.sequenceWindows)
    (hgrown : grown p s data service = retained p s service ++ incomingFor s data.points) :
    ∀ q ∈ retained p s service, ∀ x ∈ incomingFor s data.points, q.time < x.time := by
  intro q hq x hx
  have hasc := ascending_grown hv p s data
  rw [hgrown] at hasc
  exact (List.pairwise_append.mp hasc).2.2 q hq x hx

/-- Every retained point is at most as new as what covers the appended ones. -/
theorem retainedAfter_le {p : ProjectId} {s : SequenceId} {data : TimeseriesBatch}
    {service : WindowService} {finish : Timestamp} (hv : AllValid service.sequenceWindows)
    (hne : incomingFor s data.points ≠ [])
    (hgrown : grown p s data service = retained p s service ++ incomingFor s data.points)
    (hcovers : ∀ q ∈ incomingFor s data.points, q.time ≤ finish) :
    ∀ q ∈ retainedAfter p s data service, q.time ≤ finish := by
  intro q hq
  have hq' := (List.mem_filter.mp hq).1
  rw [hgrown] at hq'
  rcases List.mem_append.mp hq' with hold | hnew
  · obtain ⟨x, hx⟩ := List.exists_mem_of_ne_nil _ hne
    exact le_trans (le_of_lt (retained_lt_incoming hv hgrown q hold x hx)) (hcovers x hx)
  · exact hcovers q hnew

/-- What a batch publishes for a rule comes from one scan. -/
theorem published_rescanned {capacity : Nat} {p : ProjectId} {data : TimeseriesBatch}
    {r : ConstraintRule} {s : SequenceId} {core : CoreService} (hset : RuleSetup p r s core)
    (hsafe : (sequenceUpdateOf s (batchReport p data core)).incrementalSafe = true)
    {after : Table String CachedConstraintState}
    (hpub : published capacity p data core = some after) :
    ∃ range scanned,
      Rescanned p r s data core (stateOf r.constraintId after) range scanned := by
  obtain ⟨checked, hchecked, hstage⟩ := Option.bind_eq_some_iff.mp hpub
  have hc := checked_spec hchecked
  obtain ⟨hv, hwm, -, hsize, hstates⟩ := checked_window hchecked hset.valid hset.size
  have hrep := batch_reported hc.accepted hset.valid
  have hidsFor := hset.sequenceIds
  have hretained := checked_retained hchecked hset.valid hset.plain
  have hasc := ascending_retained hv p s
  unfold stageOf at hstage
  rw [hc.configs, hstates] at hstage
  obtain ⟨hmember, hgroup, hsingle⟩ := incremental_group hrep
    (cachedStates p core) hset.ids hset.enabled hset.reads hsafe
  obtain ⟨range, hunion, hfront, hcovers, hlast⟩ := union_range hrep (List.ne_nil_of_mem hmember)
    fun mate hmate => mem_checkedTogether hidsFor hsafe hmate
  rw [hunion] at hgroup hsingle
  have hcovers' : ∀ q ∈ incomingFor s data.points,
      range.startTime ≤ q.time ∧ q.time ≤ range.endTime :=
    hcovers r hmember s (by rw [hidsFor]; exact List.mem_singleton_self s)
  -- every retained point is at most as new as the newest incoming one
  have hend : ∀ q ∈ retained p s checked.window, q.time ≤ range.endTime := by
    intro q hq
    rw [hretained] at hq
    obtain ⟨hne, hgrown⟩ := hrep.safe s hsafe
    exact retainedAfter_le hset.valid hne hgrown (fun x hx => (hcovers' x hx).2) q hq
  obtain ⟨execution, scanned, hrange, hscan, hentry⟩ := published_rule hset.ids
    hv hwm hsize hset.reads hgroup
    (by rw [(makeGroup_sequences _ _ _).2]; exact hsingle)
    (by rw [(makeGroup_sequences _ _ _).2]; exact hmember)
    (fun own hown q hq => by
      rw [← Option.some.inj hown]
      exact hend q ((sliceOf_within _ _ _ _ _).subset hq))
    hstage
  obtain ⟨hinside, hreached⟩ := scanned_covers hasc hend hmember hscan
  rw [hretained] at hinside hreached
  refine ⟨range, scanned, hfront, hcovers', hlast, ?_, hinside, hreached, hscan.readable, ?_⟩
  · exact hasc.sublist _ (hscan.suffix.isInfix.trans (sliceOf_within _ _ _ _ _)).sublist
  · have hgen : (stateOf r.constraintId (cachedStates p core)).updateGeneration ≤
        (batchReport p data core).updateGeneration := by
      rw [hrep.updateGeneration, effectiveProject_of_ne hset.project]
      exact le_trans hset.generation (le_nextGeneration _)
    rw [hentry, publishedState_fresh hgen, hscan.violations, hrange]
    rfl

/-! ## The step -/

/-- What a publication keeps of an entry lies outside the range, and inside the window. -/
theorem mem_keptViolations {update : WindowUpdateResult} {range : IncrementalRange}
    {start : Timestamp} (hstart : update.windowStartTime = some start)
    {violations : List ConstraintViolation} {v : ConstraintViolation} :
    v ∈ keptViolations update (some range) violations ↔
      v ∈ violations ∧ (v.anchorTime < range.startTime ∨
        (range.endTime ≠ int64Max ∧ range.endTime < v.anchorTime)) ∧ start ≤ v.anchorTime := by
  rw [keptViolations, List.mem_filter, List.mem_filter, hstart]
  simp only [Option.all_some, decide_eq_true_eq, Bool.or_eq_true, Bool.and_eq_true, ne_eq]
  exact and_assoc

/-- The cached violations a publication keeps are those of the old windows whose
    anchor is retained and lies in front of the range. -/
theorem mem_kept_over {update : WindowUpdateResult} {range : IncrementalRange}
    {start : Timestamp} {r : ConstraintRule} {old : List RawTimeseriesPoint}
    (hasc : Ascending RawTimeseriesPoint.time old) (hstart : update.windowStartTime = some start)
    (hend : ∀ q ∈ old, q.time ≤ range.endTime) (v : ConstraintViolation) :
    v ∈ keptViolations update (some range) (violationsOver r old) ↔
      ∃ w ∈ windows (maximumOffset r) (old.filter fun q => decide (start ≤ q.time)),
        violationIn r w = some v ∧ v.anchorTime < range.startTime := by
  rw [← hasc.atOrAbove_eq, mem_keptViolations hstart, mem_violationsOver]
  constructor
  · rintro ⟨⟨w, hw, hv⟩, hfront, hle⟩
    obtain ⟨anchor, rest, rfl, hat⟩ := (violationIn_some hv).1
    rw [hat] at hle hfront
    refine ⟨_, (mem_windows_atOrAbove _ hasc start).mpr ⟨hw, hle⟩, hv, ?_⟩
    have hmem := (mem_windows.mp hw).1.subset (List.mem_cons_self ..)
    rw [hat]
    exact hfront.resolve_right fun h => absurd h.2 (not_lt.mpr (hend anchor hmem))
  · rintro ⟨w, hw, hv, hlt⟩
    obtain ⟨anchor, rest, rfl, hat⟩ := (violationIn_some hv).1
    obtain ⟨hw', hle⟩ := (mem_windows_atOrAbove _ hasc start).mp hw
    rw [hat] at hlt ⊢
    exact ⟨⟨_, hw', hv⟩, Or.inl hlt, hle⟩

/-- **A window that is overlooked**: it has new points, the shared check does not
    cover it, and it does not satisfy the rule.  This takes a rule with the largest
    offset there is in the group, and a window that reaches in front of everything
    new or to the end of time. -/
structure Overlooked (p : ProjectId) (r : ConstraintRule) (s : SequenceId)
    (data : TimeseriesBatch) (core : CoreService) : Prop where
  wraps : OffsetWraps (mates p data core r)
  window : ∃ w ∈ windows (maximumOffset r) (retainedAfter p s data core.window),
    (∃ q ∈ w, q ∈ incomingFor s data.points) ∧
      (∃ q ∈ w, InFront p data core.window (mateSequences p data core r) q ∨
        q.time = int64Max) ∧
      ¬ Satisfied r w

/-- The points retained after a batch behind the retained ones. -/
theorem retainedAfter_append {p : ProjectId} {s : SequenceId} {data : TimeseriesBatch}
    {service : WindowService}
    (hgrown : grown p s data service = retained p s service ++ incomingFor s data.points) :
    retainedAfter p s data service =
      (retained p s service).filter (fun q =>
          decide (startAfter p data none service ≤ q.time)) ++
        (incomingFor s data.points).filter fun q =>
          decide (startAfter p data none service ≤ q.time) := by
  rw [retainedAfter, hgrown, List.filter_append]

/-- The end of time is the only time a range that holds every new point stops in
    front of. -/
theorem queryEnd_le_iff {finish t : Timestamp} (ht : t ≤ finish) (hmax : finish ≤ int64Max) :
    queryEnd finish ≤ t ↔ t = int64Max := by
  have hlt : finish < finish + 1 := lt_add_one finish
  unfold queryEnd
  split
  · rename_i h
    rw [h] at ht ⊢
    exact ⟨fun h' => le_antisymm ht h', fun h' => ge_of_eq h'⟩
  · rename_i h
    constructor
    · intro h'
      exact absurd (le_trans h' ht) (not_le.mpr hlt)
    · intro h'
      exact absurd (le_antisymm hmax (h' ▸ ht)) h

/-! ### Windows of an appended sequence -/

section Appended

variable {p : ProjectId} {r : ConstraintRule} {s : SequenceId} {data : TimeseriesBatch}
  {core : CoreService}

/-- A window that is not one of the old windows still retained has new points. -/
theorem new_window {n : Nat} {w : List RawTimeseriesPoint}
    (hgrown : grown p s data core.window =
      retained p s core.window ++ incomingFor s data.points)
    (hw : w ∈ windows n (retainedAfter p s data core.window))
    (hno : w ∉ windows n ((retained p s core.window).filter fun q =>
      decide (startAfter p data none core.window ≤ q.time))) :
    ∃ q ∈ w, q ∈ incomingFor s data.points := by
  rw [retainedAfter_append hgrown] at hw
  obtain ⟨last, hlast, hget⟩ := mem_windows_append hw hno
  exact ⟨last, List.mem_of_getLast? hget, (List.mem_filter.mp hlast).1⟩

/-- And a window with new points is none of them. -/
theorem not_old_window {n : Nat} {w : List RawTimeseriesPoint}
    (hv : AllValid core.window.sequenceWindows)
    (hgrown : grown p s data core.window =
      retained p s core.window ++ incomingFor s data.points)
    (hnew : ∃ q ∈ w, q ∈ incomingFor s data.points) :
    w ∉ windows n ((retained p s core.window).filter fun q =>
      decide (startAfter p data none core.window ≤ q.time)) := by
  rintro hw
  obtain ⟨q, hq, hqn⟩ := hnew
  have hqo := (List.mem_filter.mp ((mem_windows.mp hw).1.subset hq)).1
  exact absurd (retained_lt_incoming hv hgrown q hqo q hqn) (lt_irrefl _)

/-- The batch brings valid points, so the sequence stays valid. -/
theorem validValues_after (hacc : Accepted p data none) (hproject : p ≠ "")
    (hgrown : grown p s data core.window =
      retained p s core.window ++ incomingFor s data.points)
    (hvalid : validateSequenceValues p s (retained p s core.window) = none) :
    validateSequenceValues p s (retainedAfter p s data core.window) = none := by
  obtain ⟨hname, hpoints⟩ := validateSequenceValues_eq_none.mp hvalid
  refine validateSequenceValues_eq_none.mpr ⟨hname, fun q hq => ?_⟩
  have hq' := (List.mem_filter.mp hq).1
  rw [hgrown] at hq'
  rcases List.mem_append.mp hq' with hq' | hq'
  · exact hpoints q hq'
  · obtain ⟨hq1, hq2⟩ := mem_incomingFor.mp hq'
    have hpoint := hacc.points q hq1
    rw [effectiveProject_of_ne hproject] at hpoint
    exact ⟨hq2, hpoint⟩

variable {entry : CachedConstraintState} {range : IncrementalRange}
  {scanned : List RawTimeseriesPoint}

/-- A new window is missed exactly when it reaches out of the range. -/
theorem Rescanned.missed_iff (h : Rescanned p r s data core entry range scanned)
    (hv : AllValid core.window.sequenceWindows) (hne : incomingFor s data.points ≠ [])
    (hgrown : grown p s data core.window =
      retained p s core.window ++ incomingFor s data.points)
    (hrange : ∀ q ∈ data.points, q.time ≤ int64Max) {w : List RawTimeseriesPoint}
    (hw : w ∈ windows (maximumOffset r) (retainedAfter p s data core.window))
    (hnew : ∃ q ∈ w, q ∈ incomingFor s data.points) :
    w ∉ windows (maximumOffset r) scanned ↔ OffsetWraps (mates p data core r) ∧
      ∃ q ∈ w, InFront p data core.window (mateSequences p data core r) q ∨
        q.time = int64Max := by
  have hend := retainedAfter_le hv hne hgrown fun q hq => (h.covers q hq).2
  have hendMax : range.endTime ≤ int64Max := by
    obtain ⟨q, hq, hqe⟩ := h.last
    exact hqe ▸ hrange q hq
  obtain ⟨x, hx, hxn⟩ := hnew
  obtain ⟨hplain, hwrap⟩ := h.reached w hw
  have hout : ∀ q ∈ w, (¬ (range.startTime ≤ q.time ∧ q.time < queryEnd range.endTime) ↔
      InFront p data core.window (mateSequences p data core r) q ∨ q.time = int64Max) := by
    intro q hq
    have hqx := (mem_windows.mp hw).1.subset hq
    have hstart : startAfter p data none core.window ≤ q.time :=
      of_decide_eq_true (List.mem_filter.mp hqx).2
    rw [not_and_or, not_le, not_lt, h.front q hstart, queryEnd_le_iff (hend q hqx) hendMax]
  by_cases hw' : OffsetWraps (mates p data core r)
  · rw [hwrap hw', and_iff_right hw']
    push Not
    constructor
    · rintro ⟨q, hq, hqo⟩
      exact ⟨q, hq, (hout q hq).mp fun hin => absurd (hqo hin.1) (not_le.mpr hin.2)⟩
    · rintro ⟨q, hq, hqo⟩
      refine ⟨q, hq, fun h1 => ?_⟩
      by_contra h2
      exact (hout q hq).mpr hqo ⟨h1, not_le.mp h2⟩
  · have hin := hplain hw' ⟨x, hx, (h.covers x hxn).1⟩
    exact ⟨fun hno => absurd hin hno, fun hyes => absurd hyes.1 hw'⟩

/-- The entry holds all violations when every window that was not scanned again, and whose
    violation was not kept, has none. -/
theorem Rescanned.entry_iff (h : Rescanned p r s data core entry range scanned)
    (hrep : Reported p data none core.window (batchReport p data core))
    (hv : AllValid core.window.sequenceWindows) (hne : incomingFor s data.points ≠ [])
    (hgrown : grown p s data core.window =
      retained p s core.window ++ incomingFor s data.points)
    (hcached : cachedViolations p r core = violationsOver r (retained p s core.window)) :
    entry.violations = violationsOver r (retainedAfter p s data core.window) ↔
      ∀ w ∈ windows (maximumOffset r) (retainedAfter p s data core.window),
        w ∉ windows (maximumOffset r) scanned →
          (∀ v, violationIn r w = some v →
            w ∈ windows (maximumOffset r) ((retained p s core.window).filter fun q =>
                decide (startAfter p data none core.window ≤ q.time)) →
              range.startTime ≤ v.anchorTime) → violationIn r w = none := by
  have holdAsc : Ascending RawTimeseriesPoint.time (retained p s core.window) :=
    ascending_retained hv p s
  have hasc : Ascending RawTimeseriesPoint.time (retainedAfter p s data core.window) :=
    (ascending_grown hv p s data).filter _ _
  have holdEnd : ∀ q ∈ retained p s core.window, q.time ≤ range.endTime := by
    intro q hq
    obtain ⟨x, hx⟩ := List.exists_mem_of_ne_nil _ hne
    exact le_trans (le_of_lt (retained_lt_incoming hv hgrown q hq x hx)) (h.covers x hx).2
  have hentry : entry.violations =
      assignAll ConstraintViolation.anchorTime (violationsOver r scanned)
        (keptViolations (batchReport p data core) (some range)
          (violationsOver r (retained p s core.window))) := by
    rw [h.entry, hcached]
  rw [hentry]
  exact rescan_iff RawTimeseriesPoint.time (filedAtAnchor r) hasc
    (by rw [retainedAfter_append hgrown]; exact (List.prefix_append _ _).isInfix)
    range.startTime h.inside
    (((ascending_violationsOver r holdAsc).filter _ _).filter _ _)
    (ascending_violationsOver r h.ascending)
    (mem_kept_over holdAsc hrep.windowStartTime holdEnd) (fun v => mem_violationsOver)

/-- An old window whose anchor lies behind the start of the range was scanned again. -/
theorem Rescanned.old_scanned (h : Rescanned p r s data core entry range scanned)
    (hv : AllValid core.window.sequenceWindows) (hne : incomingFor s data.points ≠ [])
    (hgrown : grown p s data core.window =
      retained p s core.window ++ incomingFor s data.points)
    {anchor : RawTimeseriesPoint} {rest : List RawTimeseriesPoint}
    (hw : anchor :: rest ∈ windows (maximumOffset r) (retainedAfter p s data core.window))
    (hold : anchor :: rest ∈ windows (maximumOffset r)
      ((retained p s core.window).filter fun q =>
        decide (startAfter p data none core.window ≤ q.time)))
    (hle : range.startTime ≤ anchor.time) :
    anchor :: rest ∈ windows (maximumOffset r) scanned := by
  have hasc : Ascending RawTimeseriesPoint.time (retainedAfter p s data core.window) :=
    (ascending_grown hv p s data).filter _ _
  have hwasc := ascending_of_mem_windows _ hasc hw
  obtain ⟨hplain, hwrap⟩ := h.reached _ hw
  by_cases hw' : OffsetWraps (mates p data core r)
  · refine (hwrap hw').mpr fun q hq => ⟨?_, ?_⟩
    · rcases List.mem_cons.mp hq with rfl | hq'
      · exact hle
      · exact le_trans hle (le_of_lt (((ascending_cons _).mp hwasc).1 q hq'))
    · obtain ⟨x, hx⟩ := List.exists_mem_of_ne_nil _ hne
      have hqo := (List.mem_filter.mp ((mem_windows.mp hold).1.subset hq)).1
      refine lt_of_lt_of_le (retained_lt_incoming hv hgrown q hqo x hx) ?_
      exact le_trans (h.covers x hx).2 (le_queryEnd _)
  · exact hplain hw' ⟨anchor, List.mem_cons_self .., hle⟩

end Appended

/-- **The incremental cache is exact after a batch** if and only if no window is
    overlooked. -/
theorem cache_exact_iff {capacity : Nat} {p : ProjectId} {data : TimeseriesBatch}
    {r : ConstraintRule} {s : SequenceId} {core : CoreService} (hset : RuleSetup p r s core)
    (hrange : ∀ q ∈ data.points, q.time ≤ int64Max) (hexact : CacheExact p r s core)
    (hsafe : (sequenceUpdateOf s (batchReport p data core)).incrementalSafe = true)
    (hpub : (published capacity p data core).isSome) :
    CacheExact p r s (processHotIngest capacity p data core).1 ↔
      ¬ Overlooked p r s data core := by
  obtain ⟨after, hpub⟩ := Option.isSome_iff_exists.mp hpub
  have hacc : Accepted p data none := accepted_of_safe hsafe
  have hrep := batch_reported hacc hset.valid
  obtain ⟨range, scanned, h⟩ := published_rescanned hset hsafe hpub
  obtain ⟨hne, hgrown⟩ := hrep.safe s hsafe
  set old := retained p s core.window with hold
  set xs := retainedAfter p s data core.window with hxs
  -- what the check before the batch says
  obtain ⟨hbefore, hviolations⟩ := recheck_spec p hset.reads old
  obtain ⟨hvalid, hrule, hreadable⟩ := hbefore.mp hexact.checks
  have hcached : cachedViolations p r core = violationsOver r old :=
    hexact.same.trans (hviolations hexact.checks)
  -- what it says afterwards
  have hretained : retained p s (processHotIngest capacity p data core).1.window = xs :=
    process_retained hacc hset.valid hset.plain
  obtain ⟨hnow, hviolationsNow⟩ := recheck_spec p hset.reads xs
  have hentry : cachedViolations p r (processHotIngest capacity p data core).1 =
      (stateOf r.constraintId after).violations := by
    rw [cachedViolations, (process_states capacity p data core).1, hpub, Option.getD_some]
  have hrescan := h.entry_iff hrep hset.valid hne hgrown hcached
  rw [← hentry] at hrescan
  have hmissed : ∀ w ∈ windows (maximumOffset r) xs, (∃ q ∈ w, q ∈ incomingFor s data.points) →
      (w ∉ windows (maximumOffset r) scanned ↔ OffsetWraps (mates p data core r) ∧
        ∃ q ∈ w, InFront p data core.window (mateSequences p data core r) q ∨
          q.time = int64Max) := fun w hw hnew =>
    h.missed_iff hset.valid hne hgrown hrange hw hnew
  constructor
  · rintro hafter ⟨hwraps, w, hw, hwn, hout, hbad⟩
    have hchecks := hafter.checks
    have hsame := hafter.same
    rw [hretained] at hchecks hsame
    rw [hviolationsNow hchecks] at hsame
    have hno := (hmissed w hw hwn).mpr ⟨hwraps, hout⟩
    have hnone := hrescan.mp hsame w hw hno fun v _ hwo =>
      absurd hwo (not_old_window hset.valid hgrown hwn)
    exact hbad (satisfied_iff.mpr ⟨(hnow.mp hchecks).2.2 w hw, hnone⟩)
  · intro hover
    have hsatisfied : ∀ w ∈ windows (maximumOffset r) xs,
        w ∉ windows (maximumOffset r) scanned →
          w ∉ windows (maximumOffset r) (old.filter fun q =>
            decide (startAfter p data none core.window ≤ q.time)) → Satisfied r w := by
      intro w hw hno hwo
      have hwn := new_window hgrown hw hwo
      obtain ⟨hwraps, hout⟩ := (hmissed w hw hwn).mp hno
      by_contra hbad
      exact hover ⟨hwraps, w, hw, hwn, hout, hbad⟩
    have hchecks : isSuccessful (recheck p r s xs).operation.code = true := by
      refine hnow.mpr ⟨validValues_after hacc hset.project hgrown hvalid, hrule, fun w hw => ?_⟩
      by_cases hs : w ∈ windows (maximumOffset r) scanned
      · exact h.readable w hs
      by_cases hwo : w ∈ windows (maximumOffset r) (old.filter fun q =>
          decide (startAfter p data none core.window ≤ q.time))
      · -- it was readable before the batch
        refine hreadable w (windows_mono ?_ hwo)
        rw [← (ascending_retained hset.valid p s).atOrAbove_eq]
        exact (List.dropWhile_suffix _).isInfix
      · exact (satisfied_iff.mp (hsatisfied w hw hs hwo)).1
    have hsame : cachedViolations p r (processHotIngest capacity p data core).1 =
        violationsOver r xs := by
      refine hrescan.mpr fun w hw hs hkept => ?_
      by_cases hwo : w ∈ windows (maximumOffset r) (old.filter fun q =>
          decide (startAfter p data none core.window ≤ q.time))
      · by_contra hsome
        obtain ⟨v, hviolation⟩ := Option.ne_none_iff_exists'.mp hsome
        have hle := hkept v hviolation hwo
        obtain ⟨anchor, rest, rfl, hat⟩ := (violationIn_some hviolation).1
        rw [hat] at hle
        exact hs (h.old_scanned hset.valid hne hgrown hw hwo hle)
      · exact (satisfied_iff.mp (hsatisfied w hw hs hwo)).2
    refine ⟨?_, ?_⟩
    · rw [hretained]
      exact hchecks
    · rw [hretained, hviolationsNow hchecks]
      exact hsame

theorem sumConfig_rules :
    allEnabledConstraints "p" (sumConfig [sumRule "r" 1]) = [sumRule "r" 1] ∧
      allEnabledConstraints "p" (sumConfig [sumRule "r" 1, sumRule "q" uint64Max]) =
        [sumRule "q" uint64Max, sumRule "r" 1] := ⟨rfl, rfl⟩

/-- Two batches, each with one point. -/
theorem cache_exact_iff_two_batches :
    let r := sumRule "r" 1
    let core : CoreService := (processHotIngest 4 "p" { points := [sampleAt "s" 0 0] }
      { configs := sumConfig [r] }).1
    CacheExact "p" r "s"
        (processHotIngest 4 "p" { points := [sampleAt "s" 1 100] } core).1 ↔
      ¬ Overlooked "p" r "s" { points := [sampleAt "s" 1 100] } core := by
  intro r core
  have hstart : RuleSetup "p" r "s" { configs := sumConfig [r] } :=
    ⟨by decide, allValid_empty, by decide, by decide +kernel,
      by rw [sumConfig_rules.1]; exact List.mem_singleton_self r,
      sumRule_reads "r" 1 _, by decide +kernel, by decide +kernel⟩
  exact cache_exact_iff (hstart.process 4 _) (by decide)
    ⟨by decide +kernel, by decide +kernel⟩ (by decide +kernel) (by decide +kernel)

/-- With a second rule whose offset is `2^64 - 1` the group asks for no context,
    and the window that ends in the new point is not checked. -/
theorem wrapped_offset_loses_violation :
    let r := sumRule "r" 1
    let q := sumRule "q" uint64Max
    let core : CoreService := (processHotIngest 4 "p" { points := [sampleAt "s" 0 0] }
      { configs := sumConfig [r, q] }).1
    r ∈ allEnabledConstraints "p" core.configs ∧ SampleRuleOn r "s" ∧ CacheExact "p" r "s" core ∧
      (sequenceUpdateOf "s" (batchReport "p" { points := [sampleAt "s" 1 100] }
        core)).incrementalSafe = true ∧
      (published 4 "p" { points := [sampleAt "s" 1 100] } core).isSome = true ∧
      ¬ CacheExact "p" r "s"
        (processHotIngest 4 "p" { points := [sampleAt "s" 1 100] } core).1 := by
  intro r q core
  refine ⟨?_, sumRule_reads "r" 1 _, ⟨by decide +kernel, by decide +kernel⟩, by decide +kernel,
    by decide +kernel, fun h => ?_⟩
  · rw [process_configs, sumConfig_rules.2]
    exact List.mem_cons_of_mem q (List.mem_singleton_self r)
  · exact absurd h.same (by decide +kernel)

end ConstraintCache
