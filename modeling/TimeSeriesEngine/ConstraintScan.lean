import TimeSeriesEngine.Library.SlidingWindows
import TimeSeriesEngine.HotIngest

/-!
# The anchor loop as a scan over windows

A sample rule reads `maximumOffset + 1` consecutive points at every anchor, so
checking it over a series is a scan over sliding windows:

* `windowOutcome` — the evaluation of one window;
* `checkAnchors_ok_iff`, `checkAnchors_violations` — the loop;
* `checkWindowRule_spec` — one rule over window data;
* `recheck` — a rule over all points of its sequence, the full check that every
  cached result is compared with.
-/

namespace ConstraintScan

open TseTypes KeyedTable OrderedSeries SlidingWindows HotWindow ConstraintCheck HotIngest

/-! ## Offsets -/

/-- No value is above the running maximum. -/
theorem le_foldl_max {α : Type} (f : α → Nat) {xs : List α} {x : α} (h : x ∈ xs) (n : Nat) :
    f x ≤ xs.foldl (fun largest x => max largest (f x)) n := by
  have hbase : ∀ (xs : List α) (n : Nat), n ≤ xs.foldl (fun largest x => max largest (f x)) n := by
    intro xs
    induction xs with
    | nil => exact fun n => Nat.le_refl n
    | cons y ys ih => exact fun n => Nat.le_trans (Nat.le_max_left ..) (ih _)
  induction xs generalizing n with
  | nil => exact nomatch h
  | cons y ys ih =>
      rcases List.mem_cons.mp h with rfl | h'
      · exact Nat.le_trans (Nat.le_max_right ..) (hbase ys _)
      · exact ih h' _

theorem offset_le_maximumOffset {rule : ConstraintRule} {term : ConstraintTerm}
    (h : term ∈ rule.terms) : term.sampleOffset ≤ maximumOffset rule :=
  le_foldl_max ConstraintTerm.sampleOffset h 0

/-- Every term reads a sample. -/
def AllSamples (rule : ConstraintRule) : Prop :=
  ∀ term ∈ rule.terms, term.aggregation = .sample

/-- On sample terms the scan of the validation ends with the largest offset. -/
theorem scanTerms_samples (rule : ConstraintRule) {terms : List ConstraintTerm}
    (hs : ∀ term ∈ terms, term.aggregation = .sample) {scan out : TermScan}
    (hfirst : scan.firstSample = true → scan.previousOffset = 0)
    (h : scanTerms rule terms scan = .ok out) :
    out.hasAggregate = scan.hasAggregate ∧
      out.previousOffset =
        terms.foldl (fun largest term => max largest term.sampleOffset) scan.previousOffset ∧
      (terms ≠ [] → out.hasSample = true) ∧ (scan.hasSample = true → out.hasSample = true) := by
  induction terms generalizing scan with
  | nil =>
      rw [scanTerms] at h
      rw [← Except.ok.inj h]
      exact ⟨rfl, rfl, fun h => absurd rfl h, id⟩
  | cons term terms ih =>
      have hterm : isWindowAggregation term.aggregation = false := by
        rw [hs term (List.mem_cons_self ..)]
        rfl
      rw [scanTerms, hterm] at h
      split at h
      · exact nomatch h
      split at h
      · exact nomatch h
      rw [if_neg (by simp)] at h
      split at h
      · exact nomatch h
      rename_i hord
      simp only [Bool.or_eq_true, Bool.and_eq_true, decide_eq_true_eq, Bool.not_eq_true',
        not_or, not_and, not_not, Nat.not_lt] at hord
      obtain ⟨h1, h2, h3, h4⟩ := ih (fun t ht => hs t (List.mem_cons_of_mem _ ht))
        (by intro hf; exact nomatch hf) h
      refine ⟨h1, ?_, fun _ => h4 rfl, fun _ => h4 rfl⟩
      rw [h2, List.foldl_cons]
      -- the offsets do not decrease, so the last one is the largest
      have hmax : max scan.previousOffset term.sampleOffset = term.sampleOffset := by
        cases hf : scan.firstSample with
        | true =>
            rw [hfirst hf]
            exact Nat.max_eq_right (Nat.zero_le _)
        | false => exact Nat.max_eq_right (hord.2 hf)
      rw [hmax]

/-- What validation says about a rule of sample terms. -/
theorem validate_samples {rule : ConstraintRule} {properties : ConstraintRuleProperties}
    (hs : AllSamples rule) (h : validateConstraintRule rule = .ok properties) :
    properties.kind = .sample ∧ properties.maximumSampleOffset = maximumOffset rule := by
  unfold validateConstraintRule at h
  split at h
  · exact nomatch h
  split at h
  · exact nomatch h
  split at h
  · exact nomatch h
  split at h
  · exact nomatch h
  rename_i hne
  cases hscan : scanTerms rule rule.terms {} with
  | error error =>
      rw [hscan] at h
      exact nomatch h
  | ok scan =>
      rw [hscan] at h
      obtain ⟨h1, h2, h3, -⟩ := scanTerms_samples rule hs (fun _ => rfl) hscan
      have hterms : rule.terms ≠ [] := by
        intro he
        exact hne (by simp [he])
      have hsample := h3 hterms
      simp only [hsample, h1, Bool.and_false, if_true] at h
      rw [if_neg (by simp)] at h
      rw [← Except.ok.inj h]
      exact ⟨rfl, h2⟩

/-! ## One window -/

/-- Evaluating a rule at the head of a window. -/
def windowOutcome (rule : ConstraintRule) (window : List RawTimeseriesPoint) :
    Except String (Option ConstraintViolation) :=
  match window with
  | [] => .ok none
  | anchor :: _ => evaluateRuleAt rule anchor.time (resolveSample window)

/-- The window can be evaluated. -/
def Readable (rule : ConstraintRule) (window : List RawTimeseriesPoint) : Prop :=
  ∃ outcome, windowOutcome rule window = .ok outcome

/-- The window can be evaluated and satisfies the rule. -/
def Satisfied (rule : ConstraintRule) (window : List RawTimeseriesPoint) : Prop :=
  windowOutcome rule window = .ok none

/-- The violation of a rule at the head of a run of points, if there is one. -/
def violationIn (rule : ConstraintRule) (window : List RawTimeseriesPoint) :
    Option ConstraintViolation :=
  match windowOutcome rule window with
  | .ok found => found
  | .error _ => none

theorem satisfied_iff {rule : ConstraintRule} {window : List RawTimeseriesPoint} :
    Satisfied rule window ↔ Readable rule window ∧ violationIn rule window = none := by
  unfold Satisfied Readable violationIn
  cases windowOutcome rule window with
  | error error => simp
  | ok found => simp

/-- Terms that resolve alike give the same values. -/
theorem resolveTerms_congr (rule : ConstraintRule)
    {f g : ConstraintTerm → SequenceId → Except String ResolvedTermValue}
    {terms : List ConstraintTerm} (h : ∀ term ∈ terms, ∀ s, f term s = g term s) :
    resolveTerms rule f terms = resolveTerms rule g terms := by
  induction terms with
  | nil => rfl
  | cons term terms ih =>
      rw [resolveTerms, resolveTerms, h term (List.mem_cons_self ..),
        ih fun t ht => h t (List.mem_cons_of_mem _ ht)]

/-- An evaluation reads the first `maximumOffset + 1` points only. -/
theorem evaluate_take {rule : ConstraintRule} {m : Nat} (hm : maximumOffset rule ≤ m)
    (anchor : RawTimeseriesPoint) (rest : List RawTimeseriesPoint) :
    evaluateRuleAt rule anchor.time (resolveSample (anchor :: rest)) =
      windowOutcome rule (anchor :: rest.take m) := by
  have hterms : resolveTerms rule (resolveSample (anchor :: rest)) rule.terms =
      resolveTerms rule (resolveSample (anchor :: rest.take m)) rule.terms := by
    refine resolveTerms_congr rule fun term hterm s => ?_
    have hle := offset_le_maximumOffset hterm
    have hget : (anchor :: rest)[term.sampleOffset]? =
        (anchor :: rest.take m)[term.sampleOffset]? := by
      show _ = ((anchor :: rest).take (m + 1))[term.sampleOffset]?
      rw [List.getElem?_take, if_pos (by omega)]
    unfold resolveSample
    rw [hget]
  show evaluateRuleAt _ _ _ = evaluateRuleAt _ _ _
  unfold evaluateRuleAt
  rw [hterms]

/-- A violation carries its anchor and the id of its rule. -/
theorem evaluateRuleAt_anchor {rule : ConstraintRule} {time : Timestamp}
    {resolve : ConstraintTerm → SequenceId → Except String ResolvedTermValue}
    {violation : ConstraintViolation}
    (h : evaluateRuleAt rule time resolve = .ok (some violation)) :
    violation.anchorTime = time ∧ violation.constraintId = rule.constraintId := by
  unfold evaluateRuleAt at h
  split at h
  · exact nomatch h
  · split at h
    · exact nomatch h
    · rw [← Option.some.inj (Except.ok.inj h)]
      exact ⟨rfl, rfl⟩

/-- The anchor of a violation is the first point of its window. -/
theorem violationIn_some {rule : ConstraintRule} {window : List RawTimeseriesPoint}
    {violation : ConstraintViolation} (h : violationIn rule window = some violation) :
    (∃ anchor rest, window = anchor :: rest ∧ violation.anchorTime = anchor.time) ∧
      violation.constraintId = rule.constraintId := by
  unfold violationIn at h
  cases window with
  | nil => exact nomatch h
  | cons anchor rest =>
      cases ho : windowOutcome rule (anchor :: rest) with
      | error error =>
          rw [ho] at h
          exact nomatch h
      | ok found =>
          rw [ho] at h
          subst h
          obtain ⟨h1, h2⟩ := evaluateRuleAt_anchor ho
          exact ⟨⟨anchor, rest, rfl, h1⟩, h2⟩

/-- A violation is filed under the time of its anchor. -/
theorem filedAtAnchor (rule : ConstraintRule) :
    FiledAtHead RawTimeseriesPoint.time (violationIn rule) ConstraintViolation.anchorTime :=
  fun _ _ h => (violationIn_some h).1

/-- The violations of a rule over a series. -/
def violationsOver (rule : ConstraintRule) (points : List RawTimeseriesPoint) :
    List ConstraintViolation :=
  found (violationIn rule) (maximumOffset rule) points

theorem mem_violationsOver {rule : ConstraintRule} {points : List RawTimeseriesPoint}
    {violation : ConstraintViolation} :
    violation ∈ violationsOver rule points ↔
      ∃ w ∈ windows (maximumOffset rule) points, violationIn rule w = some violation :=
  mem_found

theorem ascending_violationsOver (rule : ConstraintRule) {points : List RawTimeseriesPoint}
    (h : Ascending RawTimeseriesPoint.time points) :
    Ascending ConstraintViolation.anchorTime (violationsOver rule points) :=
  ascending_found _ (filedAtAnchor rule) h

/-! ## The loop -/

/-- Behind the last point the range end stops nothing. -/
theorem checkAnchors_rangeEnd (rule : ConstraintRule) (m : Nat) {finish : Timestamp}
    {points : List RawTimeseriesPoint} (h : ∀ q ∈ points, q.time ≤ finish) :
    checkAnchors rule m (some finish) points = checkAnchors rule m none points := by
  induction points with
  | nil => rfl
  | cons anchor rest ih =>
      have hle : ¬ finish < anchor.time := not_lt.mpr (h anchor (List.mem_cons_self ..))
      rw [checkAnchors, checkAnchors, ih fun q hq => h q (List.mem_cons_of_mem _ hq)]
      simp [hle]

/-- What the loop returns: an error of some window, or the findings of all. -/
theorem checkAnchors_cases (rule : ConstraintRule) (points : List RawTimeseriesPoint) :
    ((∀ w ∈ windows (maximumOffset rule) points, Readable rule w) ∧
        ∃ tally, checkAnchors rule (maximumOffset rule) none points = .ok tally ∧
          tally.violations = violationsOver rule points) ∨
      ((∃ w ∈ windows (maximumOffset rule) points, ¬ Readable rule w) ∧
        ∃ error, checkAnchors rule (maximumOffset rule) none points = .error error) := by
  induction points with
  | nil => exact Or.inl ⟨fun _ h => (by cases h), {}, rfl, rfl⟩
  | cons anchor rest ih =>
      by_cases hshort : rest.length < maximumOffset rule
      · refine Or.inl ⟨fun w hw => ?_, {}, ?_, ?_⟩
        · rw [windows_cons_short hshort] at hw
          cases hw
        · rw [checkAnchors, if_pos hshort]
        · rw [violationsOver, found, windows_cons_short hshort]
          rfl
      · have hlong := Nat.not_lt.mp hshort
        have hstep := evaluate_take (Nat.le_refl (maximumOffset rule)) anchor rest
        rw [checkAnchors, if_neg hshort, hstep, windows_cons_long hlong]
        simp only [Option.any_none, Bool.false_eq_true, if_false, List.mem_cons, forall_eq_or_imp,
          exists_eq_or_imp]
        cases ho : windowOutcome rule (anchor :: rest.take (maximumOffset rule)) with
        | error error =>
            refine Or.inr ⟨Or.inl ?_, error, rfl⟩
            rintro ⟨outcome, h⟩
            rw [ho] at h
            cases h
        | ok outcome =>
            rcases ih with ⟨hall, tally, htally, hv⟩ | ⟨hbad, error, herror⟩
            · refine Or.inl ⟨⟨⟨outcome, ho⟩, hall⟩, tally.evaluated outcome, ?_, ?_⟩
              · rw [htally]
              · rw [violationsOver, found, windows_cons_long hlong, List.filterMap_cons]
                show outcome.toList ++ tally.violations = _
                rw [hv, violationIn, ho]
                cases outcome with
                | none => rfl
                | some violation => rfl
            · refine Or.inr ⟨Or.inr hbad, error, ?_⟩
              rw [herror]

/-- A scan succeeds when the rule can be read at every anchor. -/
theorem checkAnchors_ok_iff {rule : ConstraintRule} {points : List RawTimeseriesPoint} :
    (∃ tally, checkAnchors rule (maximumOffset rule) none points = .ok tally) ↔
      ∀ w ∈ windows (maximumOffset rule) points, Readable rule w := by
  rcases checkAnchors_cases rule points with
    ⟨hall, tally, htally, -⟩ | ⟨⟨w, hw, hbad⟩, error, herror⟩
  · exact ⟨fun _ => hall, fun _ => ⟨tally, htally⟩⟩
  · constructor
    · rintro ⟨tally, htally⟩
      rw [herror] at htally
      exact nomatch htally
    · intro h
      exact absurd (h w hw) hbad

/-- A scan that succeeds reports every violation. -/
theorem checkAnchors_violations {rule : ConstraintRule} {points : List RawTimeseriesPoint}
    {tally : RuleTally} (h : checkAnchors rule (maximumOffset rule) none points = .ok tally) :
    tally.violations = violationsOver rule points := by
  rcases checkAnchors_cases rule points with
    ⟨-, tally', htally, hv⟩ | ⟨-, error, herror⟩
  · rw [h] at htally
    rw [Except.ok.inj htally]
    exact hv
  · rw [h] at herror
    exact nomatch herror

/-! ## One rule over window data -/

/-- A rule of sample terms whose variables all map to one sequence. -/
structure SampleRuleOn (rule : ConstraintRule) (s : SequenceId) : Prop where
  samples : AllSamples rule
  single : singleSequence rule = some s
  named : s ≠ ""

theorem fromFirstAnchor_suffix (range : Option ConstraintCheckRange)
    (points : List RawTimeseriesPoint) : fromFirstAnchor range points <:+ points := by
  cases range with
  | none => exact List.suffix_refl _
  | some range => exact List.dropWhile_suffix _

/-- One rule over window data: it fails exactly when the rule is invalid or some
    window cannot be read, and otherwise finds the violations of the scan. -/
theorem checkWindowRule_spec {rule : ConstraintRule} {s : SequenceId} (hr : SampleRuleOn rule s)
    {data : WindowData} {points : List RawTimeseriesPoint}
    (hfind : data.sequenceValues.find s = some points) (range : Option ConstraintCheckRange)
    (hend : ∀ r, range = some r → ∀ q ∈ points, q.time ≤ r.endTime) :
    ((∃ tally, checkWindowRule data range rule = .ok tally) ↔
      (∃ properties, validateConstraintRule rule = .ok properties) ∧
        ∀ w ∈ windows (maximumOffset rule) (fromFirstAnchor range points), Readable rule w) ∧
      ∀ tally, checkWindowRule data range rule = .ok tally →
        tally.violations = violationsOver rule (fromFirstAnchor range points) := by
  unfold checkWindowRule
  cases hval : validateConstraintRule rule with
  | error error => simp
  | ok properties =>
      obtain ⟨hkind, hmax⟩ := validate_samples hr.samples hval
      have hne : ¬ properties.kind = .windowAggregate := by
        rw [hkind]
        decide
      simp only [if_neg hne, hr.single, hfind, hmax]
      by_cases hshort : points.length ≤ maximumOffset rule
      · have hnil : windows (maximumOffset rule) (fromFirstAnchor range points) = [] :=
          windows_of_short (Nat.le_trans (fromFirstAnchor_suffix range points).length_le hshort)
        rw [if_pos hshort, violationsOver, found, hnil]
        refine ⟨⟨fun _ => ⟨⟨properties, rfl⟩, fun _ h => (by cases h)⟩, fun _ => ⟨{}, rfl⟩⟩, ?_⟩
        intro tally h
        rw [← Except.ok.inj h]
        rfl
      · rw [if_neg hshort]
        have hloop : checkAnchors rule (maximumOffset rule)
            (range.map ConstraintCheckRange.endTime) (fromFirstAnchor range points) =
              checkAnchors rule (maximumOffset rule) none (fromFirstAnchor range points) := by
          cases range with
          | none => rfl
          | some r =>
              exact checkAnchors_rangeEnd rule _ fun q hq =>
                hend r rfl q ((fromFirstAnchor_suffix (some r) points).subset hq)
        rw [hloop, ← checkAnchors_ok_iff]
        cases hrun : checkAnchors rule (maximumOffset rule) none
            (fromFirstAnchor range points) with
        | error error => simp
        | ok tally =>
            refine ⟨⟨fun _ => ⟨⟨properties, rfl⟩, tally, rfl⟩, fun _ => ⟨tally, rfl⟩⟩, ?_⟩
            intro tally' h
            rw [← Except.ok.inj h]
            exact checkAnchors_violations hrun

/-- A rule that fails fails with an error code. -/
theorem checkWindowRule_error {data : WindowData} {range : Option ConstraintCheckRange}
    {rule : ConstraintRule} {operation : OperationResult}
    (h : checkWindowRule data range rule = .error operation) :
    isSuccessful operation.code = false := by
  have hinvalid : ∀ message, isSuccessful (invalidArgument message).code = false := fun _ => rfl
  unfold checkWindowRule at h
  split at h
  · rw [← Except.error.inj h]
    exact hinvalid _
  split at h
  · split at h
    · rw [← Except.error.inj h]
      exact hinvalid _
    split at h
    · rw [← Except.error.inj h]
      exact hinvalid _
    · exact nomatch h
  split at h
  · rw [← Except.error.inj h]
    rfl
  split at h
  · rw [← Except.error.inj h]
    exact hinvalid _
  split at h
  · exact nomatch h
  split at h
  · rw [← Except.error.inj h]
    exact hinvalid _
  · exact nomatch h

/-! ## Several rules -/

/-- Rules that are all checked give one outcome each. -/
theorem checkRules_ok {check : ConstraintRule → Except OperationResult RuleTally}
    {rules : List ConstraintRule} {outcomes : List RuleCheckOutcome}
    (h : checkRules check rules = .ok outcomes) :
    outcomes.map RuleCheckOutcome.rule = rules ∧
      ∀ outcome ∈ outcomes, check outcome.rule = .ok outcome.tally := by
  induction rules generalizing outcomes with
  | nil =>
      rw [checkRules] at h
      rw [← Except.ok.inj h]
      exact ⟨rfl, fun _ h => (nomatch h)⟩
  | cons rule rules ih =>
      rw [checkRules] at h
      cases hc : check rule with
      | error operation =>
          rw [hc] at h
          exact nomatch h
      | ok tally =>
          cases hrest : checkRules check rules with
          | error operation =>
              rw [hc, hrest] at h
              exact nomatch h
          | ok rest =>
              rw [hc, hrest] at h
              obtain ⟨h1, h2⟩ := ih hrest
              rw [← Except.ok.inj h]
              refine ⟨congrArg (rule :: ·) h1, fun outcome ho => ?_⟩
              rcases List.mem_cons.mp ho with rfl | ho'
              · exact hc
              · exact h2 outcome ho'

/-- Collecting distinct new ids appends them. -/
theorem foldl_pushUnique_fresh {ids : List String} (seen : List String) (hn : ids.Nodup)
    (hfresh : ∀ id ∈ ids, id ∉ seen) :
    ids.foldl (fun acc id => pushUnique id acc) seen = seen ++ ids := by
  induction ids generalizing seen with
  | nil => rw [List.foldl_nil, List.append_nil]
  | cons id ids ih =>
      obtain ⟨hid, hn'⟩ := List.nodup_cons.mp hn
      have hpush : pushUnique id seen = seen ++ [id] := if_neg (hfresh id (List.mem_cons_self ..))
      rw [List.foldl_cons, hpush, ih _ hn', List.append_assoc, List.singleton_append]
      intro id' h hmem
      rcases List.mem_append.mp hmem with h' | h'
      · exact hfresh id' (List.mem_cons_of_mem _ h) h'
      · rw [List.mem_singleton] at h'
        exact hid (h' ▸ h)

/-- When no two rules share a clause, the report lists every violation. -/
theorem combine_violations (projectId : ProjectId) {outcomes : List RuleCheckOutcome}
    (hn : (outcomes.map fun outcome => clauseKey outcome.rule).Nodup) :
    (combineRuleOutcomes projectId outcomes).violations =
      outcomes.flatMap fun outcome => outcome.tally.violations := by
  have hkeys : clauseKeys outcomes = outcomes.map fun outcome => clauseKey outcome.rule := by
    have hfold := foldl_pushUnique_fresh [] hn fun _ _ => List.not_mem_nil
    rw [List.foldl_map] at hfold
    exact hfold
  have hclause : ∀ outcome ∈ outcomes,
      clauseViolations outcomes (clauseKey outcome.rule) = outcome.tally.violations := by
    intro outcome ho
    have hone : (outcomes.filter fun other => clauseKey other.rule = clauseKey outcome.rule) =
        [outcome] := by
      clear hkeys
      induction outcomes with
      | nil => exact nomatch ho
      | cons first rest ih =>
          obtain ⟨hfirst, hn'⟩ := List.nodup_cons.mp hn
          have hother : ∀ other ∈ rest, clauseKey other.rule ≠ clauseKey first.rule :=
            fun other h e => hfirst (List.mem_map.mpr ⟨other, h, e⟩)
          rcases List.mem_cons.mp ho with rfl | ho'
          · have hrest : (rest.filter fun other =>
                clauseKey other.rule = clauseKey outcome.rule) = [] := by
              exact List.filter_eq_nil_iff.mpr fun other h he =>
                hother other h (of_decide_eq_true he)
            rw [List.filter_cons, if_pos (by simp), hrest]
          · have hne : ¬ clauseKey first.rule = clauseKey outcome.rule :=
              fun he => hother outcome ho' he.symm
            rw [List.filter_cons, if_neg (by simpa using hne)]
            exact ih hn' ho'
    unfold clauseViolations
    rw [hone]
    cases hv : outcome.tally.violations with
    | nil => simp [hv]
    | cons v vs => simp [hv]
  show (clauseKeys outcomes).flatMap (clauseViolations outcomes) = _
  rw [hkeys, List.flatMap_map]
  exact List.flatMap_congr fun outcome ho => hclause outcome ho

/-! ## The full check of one rule -/

/-- `checkConstraints` of one rule over all given points of its sequence. -/
def recheck (projectId : ProjectId) (rule : ConstraintRule) (s : SequenceId)
    (points : List RawTimeseriesPoint) : ConstraintCheckResult :=
  checkWindow projectId [rule]
    { sequenceValues := put s points KeyedTable.empty, projectId := projectId } none

/-- When a full check of one sequence succeeds, and what it reports. -/
theorem recheck_spec (projectId : ProjectId) {rule : ConstraintRule} {s : SequenceId}
    (hr : SampleRuleOn rule s) (points : List RawTimeseriesPoint) :
    (isSuccessful (recheck projectId rule s points).operation.code = true ↔
      validateSequenceValues projectId s points = none ∧
        (∃ properties, validateConstraintRule rule = .ok properties) ∧
        ∀ w ∈ windows (maximumOffset rule) points, Readable rule w) ∧
      (isSuccessful (recheck projectId rule s points).operation.code = true →
        (recheck projectId rule s points).violations = violationsOver rule points) := by
  have hkeys : (put s points (KeyedTable.empty : Table SequenceId _)).keys = [s] := by
    show (if s ∈ ([] : List SequenceId) then [] else [] ++ [s]) = [s]
    rw [if_neg List.not_mem_nil, List.nil_append]
  have hfind : (put s points (KeyedTable.empty : Table SequenceId _)).find s = some points := by
    rw [find_put, if_pos rfl]
  have hdata : validateWindowData projectId
      { sequenceValues := put s points KeyedTable.empty, projectId := projectId } =
        validateSequenceValues projectId s points := by
    unfold validateWindowData
    simp only [hkeys, List.findSome?_cons, hfind, Option.getD_some, List.findSome?_nil]
    simp only [bne_self_eq_false, Bool.false_and, Bool.false_eq_true, if_false, lt_irrefl]
    cases validateSequenceValues projectId s points <;> rfl
  have hspec := fun (data : WindowData) (hdata : data.sequenceValues.find s = some points) =>
    checkWindowRule_spec hr hdata none (fun _ h => (nomatch h))
  obtain ⟨h1, h2⟩ := hspec
    { sequenceValues := put s points KeyedTable.empty, projectId := projectId } hfind
  rw [fromFirstAnchor] at h1 h2
  unfold recheck checkWindow
  simp only [hkeys, hdata, List.isEmpty_cons, Bool.false_eq_true, if_false, lt_irrefl]
  cases hpoints : validateSequenceValues projectId s points with
  | some error =>
      have hno : isSuccessful (invalidArgument error).code = false := rfl
      exact ⟨⟨fun h => absurd (hno.symm.trans h) (by decide), fun h => (nomatch h.1)⟩,
        fun h => absurd (hno.symm.trans h) (by decide)⟩
  | none =>
      rw [checkRules]
      cases hrule : checkWindowRule
          { sequenceValues := put s points KeyedTable.empty, projectId := projectId } none
          rule with
      | error operation =>
          have hcode := checkWindowRule_error hrule
          rw [hrule] at h1
          have hno : ¬ ((∃ properties, validateConstraintRule rule = .ok properties) ∧
              ∀ w ∈ windows (maximumOffset rule) points, Readable rule w) := fun h => by
            obtain ⟨tally, htally⟩ := h1.mpr h
            exact nomatch htally
          show (isSuccessful operation.code = true ↔ _) ∧ (isSuccessful operation.code = true → _)
          rw [hcode]
          exact ⟨⟨fun h => (nomatch h), fun h => absurd h.2 hno⟩, fun h => (nomatch h)⟩
      | ok tally =>
          have hall := h1.mp ⟨tally, hrule⟩
          refine ⟨⟨fun _ => ⟨rfl, hall⟩, fun _ => rfl⟩, fun _ => ?_⟩
          refine (combine_violations projectId ?_).trans ?_
          · exact List.nodup_singleton _
          · show tally.violations ++ [] = _
            rw [List.append_nil]
            exact h2 tally hrule

end ConstraintScan
