import TimeSeriesEngine.ComputedViolations
import TimeSeriesEngine.RuleGroups

/-!
# What running a group finds for one rule

A group shares one query and one range among its rules.  `runGroup_scan` says
what that means for a single member: the points it sees are a slice of its
sequence, the shared start reaches back to every anchor whose window touches the
range, and the violations reported under its id are those of a scan from there.
-/

namespace GroupScan

open TseTypes KeyedTable OrderedSeries SlidingWindows SeqContent HotWindow WindowContent
open WindowUpdate ConstraintCheck Registry UpdateRange DerivedSeries HotIngest ConstraintScan
open RuleGroups ComputedViolations

/-! ## The checks of several rules -/

/-- An error comes from one of the rules. -/
theorem checkRules_error {check : ConstraintRule → Except OperationResult RuleTally}
    {rules : List ConstraintRule} {operation : OperationResult}
    (h : checkRules check rules = .error operation) :
    ∃ rule ∈ rules, check rule = .error operation := by
  induction rules with
  | nil => cases h
  | cons rule rules ih =>
      rw [checkRules] at h
      cases hc : check rule with
      | error error =>
          rw [hc] at h
          exact ⟨rule, List.mem_cons_self .., by rw [hc, Except.error.inj h]⟩
      | ok tally =>
          cases hrest : checkRules check rules with
          | error error =>
              rw [hc, hrest] at h
              obtain ⟨r, hr, he⟩ := ih (by rw [hrest, Except.error.inj h])
              exact ⟨r, List.mem_cons_of_mem _ hr, he⟩
          | ok outcomes =>
              rw [hc, hrest] at h
              cases h

/-- A successful check validated its data and ran every rule. -/
theorem checkWindow_ok {p : ProjectId} {rules : List ConstraintRule} {data : WindowData}
    {range : Option ConstraintCheckRange}
    (h : isSuccessful (checkWindow p rules data range).operation.code = true) :
    validateWindowData p data = none ∧ ∃ outcomes,
      checkRules (checkWindowRule data range) rules = .ok outcomes ∧
        checkWindow p rules data range = combineRuleOutcomes p outcomes := by
  have hrejected : ∀ message, isSuccessful (invalidArgument message).code = false := fun _ => rfl
  unfold checkWindow at h ⊢
  split at h
  · exact absurd (h.symm.trans (hrejected _)) (by decide)
  split at h
  · exact absurd (h.symm.trans (hrejected _)) (by decide)
  split at h
  · exact absurd (h.symm.trans (hrejected _)) (by decide)
  rename_i h1 h2 h3
  rw [if_neg h1, if_neg h2, if_neg h3]
  cases hval : validateWindowData p data with
  | some error =>
      rw [hval] at h
      exact absurd (h.symm.trans (hrejected _)) (by decide)
  | none =>
      rw [hval] at h
      cases hrun : checkRules (checkWindowRule data range) rules with
      | error operation =>
          rw [hrun] at h
          obtain ⟨rule, -, he⟩ := checkRules_error hrun
          exact absurd (h.symm.trans (checkWindowRule_error he)) (by decide)
      | ok outcomes => exact ⟨rfl, outcomes, rfl, rfl⟩

/-- A valid window has valid sequences. -/
theorem validate_find {p : ProjectId} {data : WindowData} (h : validateWindowData p data = none)
    {s : SequenceId} {points : List RawTimeseriesPoint}
    (hfind : data.sequenceValues.find s = some points) :
    validateSequenceValues p s points = none := by
  unfold validateWindowData at h
  split at h
  · exact nomatch h
  split at h
  · exact nomatch h
  have hkey : s ∈ data.sequenceValues.keys :=
    (data.sequenceValues.mem_keys s).mpr (by rw [hfind]; rfl)
  have hone := List.findSome?_eq_none_iff.mp h s hkey
  rw [hfind] at hone
  exact hone

theorem checkWindowRule_ids {data : WindowData} {range : Option ConstraintCheckRange}
    {rule : ConstraintRule} {tally : RuleTally}
    (h : checkWindowRule data range rule = .ok tally) :
    ∀ v ∈ tally.violations, v.constraintId = rule.constraintId :=
  fun v hv => (checkWindowRule_computed h v hv).id

/-- Under its own id, a rule's outcome is all there is. -/
theorem flatMap_own {outcomes : List RuleCheckOutcome}
    (hids : (outcomes.map fun outcome => outcome.rule.constraintId).Nodup)
    (hv : ∀ outcome ∈ outcomes, ∀ v ∈ outcome.tally.violations,
      v.constraintId = outcome.rule.constraintId) (id : String) :
    (∀ outcome ∈ outcomes, outcome.rule.constraintId = id →
      ((outcomes.flatMap fun outcome => outcome.tally.violations).filter fun v =>
        v.constraintId = id) = outcome.tally.violations) ∧
    (id ∉ outcomes.map (fun outcome => outcome.rule.constraintId) →
      ((outcomes.flatMap fun outcome => outcome.tally.violations).filter fun v =>
        v.constraintId = id) = []) := by
  induction outcomes with
  | nil => exact ⟨fun _ h => (nomatch h), fun _ => rfl⟩
  | cons first rest ih =>
      obtain ⟨hfirst, hids'⟩ := List.nodup_cons.mp hids
      obtain ⟨h1, h2⟩ := ih hids' fun o ho => hv o (List.mem_cons_of_mem _ ho)
      have hown : ∀ v ∈ first.tally.violations, v.constraintId = first.rule.constraintId :=
        hv first (List.mem_cons_self ..)
      have hkeep : first.rule.constraintId = id →
          (first.tally.violations.filter fun v => v.constraintId = id) =
            first.tally.violations := fun he =>
        List.filter_eq_self.mpr fun v hvm => decide_eq_true ((hown v hvm).trans he)
      have hdrop : first.rule.constraintId ≠ id →
          (first.tally.violations.filter fun v => v.constraintId = id) = [] := fun hne =>
        List.filter_eq_nil_iff.mpr fun v hvm he =>
          hne ((hown v hvm).symm.trans (of_decide_eq_true he))
      constructor
      · intro outcome ho hid
        rw [List.flatMap_cons, List.filter_append]
        rcases List.mem_cons.mp ho with rfl | ho'
        · have hnot : id ∉ rest.map fun outcome => outcome.rule.constraintId := hid ▸ hfirst
          rw [hkeep hid, h2 hnot, List.append_nil]
        · have hne : first.rule.constraintId ≠ id := by
            intro he
            exact hfirst (List.mem_map.mpr ⟨outcome, ho', hid.trans he.symm⟩)
          rw [hdrop hne, h1 outcome ho' hid, List.nil_append]
      · intro hnot
        rw [List.flatMap_cons, List.filter_append]
        rw [List.map_cons, List.mem_cons, not_or] at hnot
        rw [hdrop fun he => hnot.1 he.symm, h2 hnot.2, List.nil_append]

/-! ## The shared start -/

/-- Walking back moves the start back. -/
theorem walkBack_le (data : WindowData) (rules : List ConstraintRule) (start : Timestamp)
    (rule : ConstraintRule) : walkBack data rules start rule ≤ start := by
  unfold walkBack
  split
  · exact le_refl _
  simp only
  split
  · exact le_refl _
  · exact min_le_left _ _

theorem foldl_walkBack_le (data : WindowData) (rules single : List ConstraintRule)
    (start : Timestamp) : single.foldl (walkBack data rules) start ≤ start := by
  induction single generalizing start with
  | nil => exact le_refl _
  | cons rule rest ih => exact le_trans (ih _) (walkBack_le data rules start rule)

/-- Later positions have later times. -/
theorem getElem?_le_of_ascending {xs : List RawTimeseriesPoint}
    (h : Ascending RawTimeseriesPoint.time xs) {i j : Nat} {x y : RawTimeseriesPoint}
    (hij : i ≤ j) (hx : xs[i]? = some x) (hy : xs[j]? = some y) : x.time ≤ y.time := by
  obtain ⟨hi, rfl⟩ := List.getElem?_eq_some_iff.mp hx
  obtain ⟨hj, rfl⟩ := List.getElem?_eq_some_iff.mp hy
  rcases Nat.lt_or_eq_of_le hij with hlt | rfl
  · exact le_of_lt (List.pairwise_iff_getElem.mp h i j hi hj hlt)
  · exact le_refl _

/-- After a member's turn the start is in front of every point that is at most
    its offset behind the first point of the range. -/
theorem foldl_walkBack_reaches {data : WindowData} {rules single : List ConstraintRule}
    {rule : ConstraintRule} (hr : rule ∈ single) {s : SequenceId}
    (hids : sequenceIdsFor rules rule = [s]) {points : List RawTimeseriesPoint}
    (hfind : data.sequenceValues.find s = some points)
    (hasc : Ascending RawTimeseriesPoint.time points) (start : Timestamp) {j : Nat}
    {q : RawTimeseriesPoint} (hq : points[j]? = some q)
    (hj : (below RawTimeseriesPoint.time start points).length ≤ j + maximumOffset rule) :
    single.foldl (walkBack data rules) start ≤ q.time := by
  induction single generalizing start with
  | nil => exact nomatch hr
  | cons first rest ih =>
      rw [List.foldl_cons]
      rcases List.mem_cons.mp hr with rfl | hr'
      · refine le_trans (foldl_walkBack_le data rules rest _) ?_
        unfold walkBack
        rw [hids]
        simp only [List.head?_cons, Option.bind_some, hfind]
        -- the anchor's index is in range, because `j` is
        have hle : (below RawTimeseriesPoint.time start points).length - maximumOffset rule ≤ j := by
          omega
        obtain ⟨hjlen, -⟩ := List.getElem?_eq_some_iff.mp hq
        have hsome : (points[(below RawTimeseriesPoint.time start points).length -
            maximumOffset rule]?).isSome = true := by
          rw [isSome_getElem?]
          exact Nat.lt_of_le_of_lt hle hjlen
        obtain ⟨anchor, hget⟩ := Option.isSome_iff_exists.mp hsome
        rw [hget]
        exact le_trans (min_le_right _ _) (getElem?_le_of_ascending hasc hle hget hq)
      · refine ih hr' _ (le_trans ?_ hj)
        exact length_below_mono _ hasc (walkBack_le data rules start first)

/-! ## One group -/

/-- The points of a sequence a group's query returns. -/
def groupSlice (p : ProjectId) (service : WindowService) (watermark : Timestamp)
    (group : ConstraintGroupSpec) (s : SequenceId) : List RawTimeseriesPoint :=
  sliceOf (queryStart p group.query watermark service) (queryFinish group.query watermark)
    group.query.precedingPoints group.query.followingPoints (retained p s service)

theorem groupSequences_spec (rules group : List ConstraintRule) :
    (groupSequences rules group).Nodup ∧
      ∀ s, s ∈ groupSequences rules group ↔ ∃ rule ∈ group, s ∈ sequenceIdsFor rules rule := by
  obtain ⟨h1, h2⟩ := unionIds_spec (sequenceIdsFor rules) group List.nodup_nil
  exact ⟨h1, fun s => (h2 s).trans (by simp)⟩

theorem makeGroup_sequences (rules group : List ConstraintRule)
    (range : Option IncrementalRange) :
    (makeGroup rules group range).query.sequenceIds = groupSequences rules group ∧
      (makeGroup rules group range).rules = group := by
  unfold makeGroup
  cases range <;> exact ⟨rfl, rfl⟩

/-- What a run of its group says about one rule. -/
structure Scanned (p : ProjectId) (rule : ConstraintRule) (s : SequenceId)
    (range : Option IncrementalRange) (slice : List RawTimeseriesPoint)
    (execution : ConstraintGroupExecution) (scanned : List RawTimeseriesPoint) : Prop where
  suffix : scanned <:+ slice
  full : range = none → scanned = slice
  reach : ∀ r, range = some r → ∀ w ∈ windows (maximumOffset rule) slice,
    (∃ last, w.getLast? = some last ∧ r.startTime ≤ last.time) →
      w ∈ windows (maximumOffset rule) scanned
  readable : ∀ w ∈ windows (maximumOffset rule) scanned, Readable rule w
  violations : (execution.result.violations.filter fun v =>
    v.constraintId = rule.constraintId) = violationsOver rule scanned
  valid : slice ≠ [] → (∃ properties, validateConstraintRule rule = .ok properties) ∧
    validateSequenceValues p s slice = none

/-- Windows that end in the range start behind the shared start. -/
theorem window_reached {slice : List RawTimeseriesPoint}
    (hasc : Ascending RawTimeseriesPoint.time slice) {m : Nat} {start first : Timestamp}
    (hreach : ∀ j q, slice[j]? = some q →
      (below RawTimeseriesPoint.time first slice).length ≤ j + m → start ≤ q.time)
    {w : List RawTimeseriesPoint} (hw : w ∈ windows m slice)
    (hlast : ∃ last, w.getLast? = some last ∧ first ≤ last.time) :
    w ∈ windows m (atOrAbove RawTimeseriesPoint.time start slice) := by
  obtain ⟨⟨pre, post, heq⟩, hl⟩ := mem_windows.mp hw
  obtain ⟨last, hlast, hle⟩ := hlast
  -- the index of the last point of the window
  have hget : slice[pre.length + m]? = some last := by
    rw [← heq, List.append_assoc, List.getElem?_append_right (by omega),
      List.getElem?_append_left (by omega), Nat.add_sub_cancel_left]
    rw [List.getLast?_eq_getElem?, hl, Nat.add_sub_cancel] at hlast
    exact hlast
  have hbelow : (below RawTimeseriesPoint.time first slice).length ≤ pre.length + m := by
    by_contra hlt
    have hmem : last ∈ below RawTimeseriesPoint.time first slice := by
      have hsplit := below_append_atOrAbove RawTimeseriesPoint.time first slice
      rw [← hsplit, List.getElem?_append_left (by omega)] at hget
      exact List.mem_of_getElem? hget
    exact absurd (hasc.mem_below _ |>.mp hmem).2 (not_lt.mpr hle)
  -- so every point of the window is kept by the shared start
  have hkeep : ∀ q ∈ w ++ post, start ≤ q.time := by
    intro q hq
    obtain ⟨i, hi⟩ := List.getElem?_of_mem hq
    refine hreach (pre.length + i) q ?_ (by omega)
    rw [← heq, List.append_assoc, List.getElem?_append_right (by omega), Nat.add_sub_cancel_left]
    exact hi
  refine mem_windows.mpr ⟨?_, hl⟩
  rw [hasc.atOrAbove_eq]
  have hfilter : slice.filter (fun q => decide (start ≤ q.time)) =
      pre.filter (fun q => decide (start ≤ q.time)) ++ (w ++ post) := by
    rw [← heq, List.append_assoc, List.filter_append]
    refine congrArg (_ ++ ·) (List.filter_eq_self.mpr fun q hq => decide_eq_true (hkeep q hq))
  rw [hfilter]
  exact ⟨pre.filter _, post, by rw [List.append_assoc]⟩

/-- The members whose sequences the data has. -/
def applicable (rules : List ConstraintRule) (data : WindowData) (members : List ConstraintRule) :
    List ConstraintRule :=
  members.filter fun rule => containsAllSequences data (sequenceIdsFor rules rule)

/-- The range a group of single-sequence rules is checked over. -/
def sharedRange (rules : List ConstraintRule) (data : WindowData) (members : List ConstraintRule)
    (range : Option IncrementalRange) : Option ConstraintCheckRange :=
  range.map fun range =>
    { startTime := (applicable rules data members).foldl (walkBack data rules) range.startTime
      endTime := range.endTime }

/-- A continuous check of single-sequence rules is one engine check of the
    applicable ones. -/
theorem runContinuous_single {p : ProjectId} {registry : RuntimeConfigRegistry}
    {rules members : List ConstraintRule} {data : WindowData} {range : Option IncrementalRange}
    (hlen : ∀ q ∈ members, (sequenceIdsFor rules q).length = 1)
    (hclauses : (members.map clauseKey).Nodup)
    (hok : isSuccessful (runContinuousConstraintCheck p registry rules members data
      range).operation.code = true) :
    ((applicable rules data members ≠ [] → validateWindowData p data = none) ∧
      ∃ outcomes : List RuleCheckOutcome,
        outcomes.map RuleCheckOutcome.rule = applicable rules data members ∧
        (∀ o ∈ outcomes,
          checkWindowRule data (sharedRange rules data members range) o.rule = .ok o.tally) ∧
        (runContinuousConstraintCheck p registry rules members data range).violations =
          outcomes.flatMap fun o => o.tally.violations) := by
  have happ : (members.filter fun rule => !(sequenceIdsFor rules rule).isEmpty &&
      containsAllSequences data (sequenceIdsFor rules rule)) = applicable rules data members := by
    refine List.filter_congr fun q hq => ?_
    have hne : (sequenceIdsFor rules q).isEmpty = false := by
      have := hlen q hq
      cases hs : sequenceIdsFor rules q with
      | nil =>
          rw [hs] at this
          exact nomatch this
      | cons t ts => rfl
    rw [hne]
    rfl
  have hlen' : ∀ q ∈ applicable rules data members, (sequenceIdsFor rules q).length = 1 :=
    fun q hq => hlen q (List.mem_filter.mp hq).1
  have hsingle : ((applicable rules data members).filter fun rule =>
      (sequenceIdsFor rules rule).length = 1) = applicable rules data members :=
    List.filter_eq_self.mpr fun q hq => decide_eq_true (hlen' q hq)
  have hmulti : ((applicable rules data members).filter fun rule =>
      (sequenceIdsFor rules rule).length ≠ 1) = [] :=
    List.filter_eq_nil_iff.mpr fun q hq h => of_decide_eq_true h (hlen' q hq)
  unfold runContinuousConstraintCheck at hok ⊢
  by_cases hempty : members.isEmpty = true
  · rw [List.isEmpty_iff.mp hempty]
    refine ⟨fun h => absurd rfl h, [], rfl, fun _ h => (nomatch h), rfl⟩
  rw [if_neg hempty] at hok ⊢
  simp only [happ, hsingle, hmulti, List.isEmpty_nil, if_true] at hok ⊢
  by_cases hnil : applicable rules data members = []
  · rw [hnil]
    exact ⟨fun h => absurd rfl h, [], rfl, fun _ h => (nomatch h), rfl⟩
  have hnil' : (applicable rules data members).isEmpty = false := by simpa using hnil
  simp only [hnil', Bool.false_eq_true, if_false] at hok ⊢
  -- the single-sequence check must have succeeded
  by_cases hcheck : isSuccessful (checkSingleRules p rules (applicable rules data members) data
      range).operation.code = true
  swap
  · rw [if_pos (by simpa using hcheck)] at hok
    exact absurd hok hcheck
  rw [if_neg (by simp [hcheck])]
  obtain ⟨hval, outcomes, hrun, heq⟩ := checkWindow_ok hcheck
  obtain ⟨hmap, hall⟩ := checkRules_ok hrun
  refine ⟨fun _ => hval, outcomes, hmap, hall, ?_⟩
  show (checkWindow _ _ _ _).violations = _
  rw [heq]
  refine combine_violations p ?_
  have hkeys : (outcomes.map fun o => clauseKey o.rule) =
      (applicable rules data members).map clauseKey := by
    rw [← hmap, List.map_map]
    rfl
  rw [hkeys]
  exact hclauses.sublist (List.filter_sublist.map _)

/-- A group that succeeds has queried its sequences; if they have no points it reports
    nothing, and otherwise it is one continuous check of the points. -/
theorem runGroup_queried {capacity : Nat} {p : ProjectId} {registry : RuntimeConfigRegistry}
    {rules : List ConstraintRule} {service : WindowService} {group : ConstraintGroupSpec}
    {execution : ConstraintGroupExecution} (hv : AllValid service.sequenceWindows)
    {watermark : Timestamp}
    (hwm : service.watermarks.find (effectiveProject p) = some watermark)
    (hsize : 0 < windowSize p service) (hne : group.rules.isEmpty = false)
    (hnd : group.query.sequenceIds.Nodup)
    (hrun : runGroup capacity p registry rules service group = .ok execution)
    (hok : isSuccessful execution.result.operation.code = true) :
    ∃ data : WindowData,
      (∀ s ∈ group.query.sequenceIds, data.sequenceValues.find s =
        if groupSlice p service watermark group s = [] then none
        else some (groupSlice p service watermark group s)) ∧
      (data.sequenceValues.keys = [] ∧ execution.result.violations = [] ∨
        execution.result = runContinuousConstraintCheck p registry rules group.rules data
          group.range) := by
  unfold runGroup at hrun
  rw [hne, if_neg (by decide)] at hrun
  cases hquery : queryWindowData capacity p group.query service with
  | error error =>
      rw [hquery] at hrun
      exact nomatch hrun
  | ok window =>
      rw [hquery] at hrun
      have hexec := (Except.ok.inj hrun).symm
      rw [hexec] at hok
      simp only at hok
      by_cases hwok : isSuccessful window.operation.code = true
      swap
      · rw [if_pos (by simpa using hwok)] at hok
        exact absurd hok hwok
      obtain ⟨-, hfind⟩ := queryWindowData_read hv hnd hwm hsize hquery hwok
      refine ⟨window.data, fun s hs => ?_, ?_⟩
      · rw [hfind s, if_pos hs]
        rfl
      · by_cases hkeys : window.data.sequenceValues.keys.isEmpty = true
        · refine Or.inl ⟨List.isEmpty_iff.mp hkeys, ?_⟩
          rw [hexec]
          simp only [hwok, hkeys, Bool.not_true, Bool.false_eq_true, if_false, if_true]
        · refine Or.inr ?_
          rw [hexec]
          simp only [hwok, hkeys, Bool.not_true, Bool.false_eq_true, if_false]

/-- A rule whose sequence the data lacks reports nothing. -/
theorem runContinuous_absent {p : ProjectId} {registry : RuntimeConfigRegistry}
    {rules members : List ConstraintRule} {data : WindowData} {range : Option IncrementalRange}
    (hids : (members.map ConstraintRule.constraintId).Nodup)
    (hlen : ∀ q ∈ members, (sequenceIdsFor rules q).length = 1)
    (hclauses : (members.map clauseKey).Nodup) {rule : ConstraintRule} (hrule : rule ∈ members)
    {s : SequenceId} (hidsFor : sequenceIdsFor rules rule = [s])
    (hfind : data.sequenceValues.find s = none)
    (hok : isSuccessful (runContinuousConstraintCheck p registry rules members data
      range).operation.code = true) :
    ((runContinuousConstraintCheck p registry rules members data range).violations.filter
      fun v => v.constraintId = rule.constraintId) = [] := by
  obtain ⟨-, outcomes, hmap, hall, hviol⟩ := runContinuous_single hlen hclauses hok
  have hmapIds : (outcomes.map fun o => o.rule.constraintId) =
      (applicable rules data members).map ConstraintRule.constraintId := by
    rw [← hmap, List.map_map]
    rfl
  have hoids : (outcomes.map fun o => o.rule.constraintId).Nodup := by
    rw [hmapIds]
    exact hids.sublist (List.filter_sublist.map _)
  rw [hviol]
  refine (flatMap_own hoids (fun o ho v hv => checkWindowRule_ids (hall o ho) v hv)
    rule.constraintId).2 fun hin => ?_
  rw [hmapIds] at hin
  obtain ⟨q, hq, hqid⟩ := List.mem_map.mp hin
  -- the id names one rule only, and that one is not applicable
  have hqr : q = rule := by
    have h1 := find_of_nodup hids (List.mem_filter.mp hq).1
    have h2 := find_of_nodup hids hrule
    rw [hqid, h2] at h1
    exact (Option.some.inj h1).symm
  have hcontains := (List.mem_filter.mp hq).2
  rw [hqr, hidsFor] at hcontains
  simp [containsAllSequences, hfind] at hcontains

/-- Nothing is scanned where there is nothing to scan. -/
theorem scanned_nothing {p : ProjectId} {rule : ConstraintRule} {s : SequenceId}
    {range : Option IncrementalRange} {slice : List RawTimeseriesPoint}
    {execution : ConstraintGroupExecution} (hnil : slice = [])
    (hviol : (execution.result.violations.filter fun v =>
      v.constraintId = rule.constraintId) = []) :
    Scanned p rule s range slice execution [] := by
  refine ⟨List.nil_suffix, fun _ => hnil.symm, fun r _ w hw => ?_, fun w hw => ?_, hviol,
    fun h => absurd hnil h⟩
  · rw [hnil] at hw
    exact nomatch hw
  · exact nomatch hw

/-- A rule whose sequence has points is scanned from the shared start. -/
theorem scanned_present {p : ProjectId} {registry : RuntimeConfigRegistry}
    {rules members : List ConstraintRule} {data : WindowData} {range : Option IncrementalRange}
    (hids : (members.map ConstraintRule.constraintId).Nodup)
    (hlen : ∀ q ∈ members, (sequenceIdsFor rules q).length = 1)
    (hclauses : (members.map clauseKey).Nodup) {rule : ConstraintRule} (hrule : rule ∈ members)
    {s : SequenceId} (hr : SampleRuleOn rule s) (hidsFor : sequenceIdsFor rules rule = [s])
    {slice : List RawTimeseriesPoint} (hasc : Ascending RawTimeseriesPoint.time slice)
    (hfind : data.sequenceValues.find s = some slice)
    {execution : ConstraintGroupExecution}
    (hresult : execution.result = runContinuousConstraintCheck p registry rules members data range)
    (hok : isSuccessful execution.result.operation.code = true)
    (hend : ∀ r, range = some r → ∀ q ∈ slice, q.time ≤ r.endTime) :
    Scanned p rule s range slice execution
      (fromFirstAnchor (sharedRange rules data members range) slice) := by
  rw [hresult] at hok
  obtain ⟨hval, outcomes, hmap, hall, hviol⟩ := runContinuous_single hlen hclauses hok
  have hoids : (outcomes.map fun o => o.rule.constraintId).Nodup := by
    have hmapIds : (outcomes.map fun o => o.rule.constraintId) =
        (applicable rules data members).map ConstraintRule.constraintId := by
      rw [← hmap, List.map_map]
      rfl
    rw [hmapIds]
    exact hids.sublist (List.filter_sublist.map _)
  obtain ⟨hown, -⟩ := flatMap_own hoids
    (fun o ho v hv => checkWindowRule_ids (hall o ho) v hv) rule.constraintId
  have happ : rule ∈ applicable rules data members := by
    refine List.mem_filter.mpr ⟨hrule, ?_⟩
    rw [hidsFor]
    simp [containsAllSequences, hfind]
  obtain ⟨outcome, ho, hor⟩ := List.mem_map.mp (hmap ▸ happ)
  have hrunRule := hall outcome ho
  rw [hor] at hrunRule
  obtain ⟨hiff, hfound⟩ := checkWindowRule_spec hr hfind
    (sharedRange rules data members range) (fun r hrr q hq => by
      cases hgr : range with
      | none =>
          rw [hgr] at hrr
          exact nomatch hrr
      | some r' =>
          rw [hgr] at hrr
          rw [← Option.some.inj hrr]
          exact hend r' hgr q hq)
  obtain ⟨hprops, hread⟩ := hiff.mp ⟨_, hrunRule⟩
  have hvalid := validate_find (hval (List.ne_nil_of_mem happ)) hfind
  refine ⟨fromFirstAnchor_suffix _ _, fun hn => ?_, fun r hrr w hw hlast => ?_, hread, ?_,
    fun _ => ⟨hprops, hvalid⟩⟩
  · rw [hn]
    rfl
  · rw [hrr]
    exact window_reached hasc
      (fun j q hq hj => foldl_walkBack_reaches happ hidsFor hfind hasc r.startTime hq hj)
      hw hlast
  · rw [hresult, hviol, hown outcome ho (by rw [hor]), hfound _ hrunRule]

/-- The query of a group asks for the sequences of its rules, each once. -/
theorem singleGroup_query {rules members : List ConstraintRule} {update : WindowUpdateResult}
    {group : ConstraintGroupSpec} (hrules : (rules.map ConstraintRule.constraintId).Nodup)
    (hgroup : SingleGroup rules update members group) {rule : ConstraintRule}
    (hrule : rule ∈ members) {s : SequenceId} (hr : SampleRuleOn rule s) :
    sequenceIdsFor rules rule = [s] ∧ s ∈ group.query.sequenceIds ∧
      group.query.sequenceIds.Nodup ∧ group.rules = members ∧ group.rules.isEmpty = false := by
  have hidsFor : sequenceIdsFor rules rule = [s] := by
    rw [sequenceIdsFor_of_mem hrules (hgroup.subset rule hrule).1]
    exact mappedSequenceIds_single hr
  obtain ⟨hseq, hgrules⟩ := makeGroup_sequences rules members group.range
  rw [← hgroup.shape] at hseq hgrules
  refine ⟨hidsFor, ?_, ?_, hgrules, ?_⟩
  · rw [hseq, (groupSequences_spec rules members).2]
    exact ⟨rule, hrule, by rw [hidsFor]; exact List.mem_singleton_self s⟩
  · rw [hseq]
    exact (groupSequences_spec rules members).1
  · rw [hgrules]
    exact List.isEmpty_eq_false_iff.mpr (List.ne_nil_of_mem hrule)

/-- **Running a group**, seen from one of its rules. -/
theorem runGroup_scan {capacity : Nat} {p : ProjectId} {registry : RuntimeConfigRegistry}
    {rules members : List ConstraintRule} {update : WindowUpdateResult} {service : WindowService}
    {group : ConstraintGroupSpec} {execution : ConstraintGroupExecution}
    (hrules : (rules.map ConstraintRule.constraintId).Nodup)
    (hv : AllValid service.sequenceWindows) {watermark : Timestamp}
    (hwm : service.watermarks.find (effectiveProject p) = some watermark)
    (hsize : 0 < windowSize p service) (hgroup : SingleGroup rules update members group)
    {rule : ConstraintRule} (hrule : rule ∈ members) {s : SequenceId} (hr : SampleRuleOn rule s)
    (hrun : runGroup capacity p registry rules service group = .ok execution)
    (hok : isSuccessful execution.result.operation.code = true)
    (hend : ∀ r, group.range = some r →
      ∀ q ∈ groupSlice p service watermark group s, q.time ≤ r.endTime) :
    ∃ scanned, Scanned p rule s group.range (groupSlice p service watermark group s) execution
      scanned := by
  have hasc : Ascending RawTimeseriesPoint.time (groupSlice p service watermark group s) :=
    (hv.ascending _).sublist _ (sliceOf_within _ _ _ _ _).sublist
  have hlen : ∀ q ∈ members, (sequenceIdsFor rules q).length = 1 :=
    fun q hq => (hgroup.subset q hq).2
  obtain ⟨hidsFor, hmem, hnd, hgrules, hne⟩ := singleGroup_query hrules hgroup hrule hr
  obtain ⟨data, hfind, hresult⟩ := runGroup_queried hv hwm hsize hne hnd hrun hok
  have hfinds := hfind s hmem
  rcases hresult with ⟨hkeys, hviol⟩ | hresult
  · -- no sequence of the group has points
    refine ⟨[], scanned_nothing ?_ (by rw [hviol]; rfl)⟩
    by_contra hno
    rw [if_neg hno] at hfinds
    have hk := (data.sequenceValues.mem_keys s).mpr (by rw [hfinds]; rfl)
    rw [hkeys] at hk
    exact nomatch hk
  rw [hgrules] at hresult
  by_cases hnil : groupSlice p service watermark group s = []
  · rw [if_pos hnil] at hfinds
    rw [hresult] at hok
    refine ⟨[], scanned_nothing hnil ?_⟩
    rw [hresult]
    exact runContinuous_absent hgroup.ids hlen hgroup.clauses hrule hidsFor hfinds hok
  · rw [if_neg hnil] at hfinds
    exact ⟨_, scanned_present hgroup.ids hlen hgroup.clauses hrule hr hidsFor hasc hfinds hresult
      hok hend⟩

end GroupScan
