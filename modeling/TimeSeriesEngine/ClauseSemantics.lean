import TimeSeriesEngine.AnchorReference
import TimeSeriesEngine.PersistentReport

/-!
# The clauses of a check

A check of a list of rules is judged against the checks of the single rules: it is
satisfied when every clause has a rule without a violation, and reports the violations
of the other clauses, clause by clause.  A single sample rule means what
`AnchorReference` says.

* `RuleMeaning`, `CheckMeaning` — the reference, for window data and aligned samples;
* `ReadsInside` — an accepted rule reads no value outside its mappings and its series;
* `check_meaning` — every check that returns Ok, every rule that is accepted.
-/

namespace ClauseSemantics

open TseTypes KeyedTable OrderedSeries HotWindow ConstraintCheck HotIngest ConstraintScan GroupScan
open AnchorReference PersistentReport RuleGroups

/-! ## The reference -/

/-- The data of a check. -/
inductive CheckInput where
  | window (data : WindowData)
  | aligned (data : AlignedWindowData)

/-- `checkConstraints` over either kind of data. -/
def check (p : ProjectId) (rules : List ConstraintRule) (range : Option ConstraintCheckRange) :
    CheckInput → ConstraintCheckResult
  | .window data => checkWindow p rules data range
  | .aligned data => checkAligned p rules data range

/-- The points of every sequence are in time order; aligned samples are checked to be. -/
def InOrder : CheckInput → Prop
  | .window data => ∀ s points, data.sequenceValues.find s = some points →
      Ordered RawTimeseriesPoint.time points
  | .aligned _ => True

/-- What the check of a single sample rule says about its series. -/
structure RuleMeaning {α : Type} (series : Series α) (range : Option ConstraintCheckRange)
    (rule : ConstraintRule) (result : ConstraintCheckResult) : Prop where
  numeric : ∀ i ∈ evaluatedAnchors series range rule, ∀ term ∈ rule.terms,
    ∃ value, series.numberAt (i + term.sampleOffset) (mappedSequence rule term) = some value
  evaluated : result.evaluatedCount = (evaluatedAnchors series range rule).length
  pending : result.pendingCount = (pendingAnchors series range rule).length
  violations : result.violations =
    (violatedAnchors series range rule).map (violationAt series rule)

/-- What the result of a rule on samples says about the input. -/
def SampleMeaning (range : Option ConstraintCheckRange) (rule : ConstraintRule)
    (result : ConstraintCheckResult) : CheckInput → Prop
  | .window data => ∃ s points,
      (∀ term ∈ rule.terms, rule.variableMapping.find term.variableName = some s) ∧
        data.sequenceValues.find s = some points ∧ RuleMeaning (pointSeries points) range rule result
  | .aligned data => RuleMeaning (sampleSeries data.samples) range rule result

/-- The rules of the clause of `head`. -/
noncomputable def clauseOf (rules : List ConstraintRule) (head : ConstraintRule) :
    List ConstraintRule :=
  open Classical in rules.filter fun rule => decide (SameClause head rule)

/-- The clause has a rule without a violation. -/
def ClauseSatisfied (alone : ConstraintRule → ConstraintCheckResult) (rules : List ConstraintRule)
    (head : ConstraintRule) : Prop :=
  ∃ rule ∈ rules, SameClause head rule ∧ (alone rule).violations = []

/-- The violations of a clause that fails, rule by rule. -/
noncomputable def clauseReport (alone : ConstraintRule → ConstraintCheckResult)
    (rules : List ConstraintRule) (head : ConstraintRule) : List ConstraintViolation :=
  open Classical in
  if ClauseSatisfied alone rules head then []
  else (clauseOf rules head).flatMap fun rule => (alone rule).violations

/-- **The check means its clauses**: `alone` is the check of a single rule. -/
structure CheckMeaning (input : CheckInput) (range : Option ConstraintCheckRange)
    (rules : List ConstraintRule) (alone : ConstraintRule → ConstraintCheckResult)
    (result : ConstraintCheckResult) : Prop where
  ok : ∀ rule ∈ rules, (alone rule).operation.code = .ok
  samples : ∀ rule ∈ rules, AllSamples rule → SampleMeaning range rule (alone rule) input
  evaluated : result.evaluatedCount = (rules.map fun rule => (alone rule).evaluatedCount).sum
  pending : result.pendingCount = (rules.map fun rule => (alone rule).pendingCount).sum
  satisfied : result.satisfied = true ↔ ∀ rule ∈ rules, ClauseSatisfied alone rules rule
  violations : ∃ heads : List ConstraintRule, heads.Sublist rules ∧
    heads.Pairwise (fun a b => ¬ SameClause a b) ∧
    (∀ rule ∈ rules, ∃ head ∈ heads, SameClause head rule) ∧
    result.violations = heads.flatMap (clauseReport alone rules)

/-- The text the model gives a read behind the end of a series. -/
def strayRead : String := "sample offset behind the end of the window"

/-- No read of the rule is outside its mappings or behind the end of a series. -/
structure ReadsInside (rule : ConstraintRule) (properties : ConstraintRuleProperties) : Prop where
  mapped : ∀ term ∈ rule.terms, ∃ s, rule.variableMapping.find term.variableName = some s
  inside : ∀ n i, i + properties.maximumSampleOffset < n → ∀ term ∈ rule.terms,
    i + term.sampleOffset < n
  points : ∀ finish points,
    checkAnchors rule properties.maximumSampleOffset finish points ≠ .error strayRead
  samples : ∀ finish samples,
    checkAlignedAnchors rule properties.maximumSampleOffset finish samples ≠ .error strayRead

/-! ## The reads of an accepted rule -/

/-- What the term loop leaves behind about every term. -/
structure TermsScanned (rule : ConstraintRule) (terms : List ConstraintTerm) (scan out : TermScan) :
    Prop where
  mapped : ∀ term ∈ terms, ∃ s, rule.variableMapping.find term.variableName = some s
  samples : ∀ term ∈ terms, term.aggregation = .sample →
    out.hasSample = true ∧ term.sampleOffset ≤ out.previousOffset
  aggregates : ∀ term ∈ terms, term.aggregation ≠ .sample → term.sampleOffset = 0
  offsets : scan.previousOffset ≤ out.previousOffset
  seen : scan.hasSample = true → out.hasSample = true

/-- One term in front of those scanned. -/
theorem TermsScanned.cons {rule : ConstraintRule} {term : ConstraintTerm} {terms : List ConstraintTerm}
    {scan next out : TermScan} (h : TermsScanned rule terms next out)
    (hmapped : ∃ s, rule.variableMapping.find term.variableName = some s)
    (hsample : term.aggregation = .sample →
      out.hasSample = true ∧ term.sampleOffset ≤ out.previousOffset)
    (haggregate : term.aggregation ≠ .sample → term.sampleOffset = 0)
    (hoffset : scan.previousOffset ≤ next.previousOffset)
    (hseen : scan.hasSample = true → next.hasSample = true) :
    TermsScanned rule (term :: terms) scan out where
  mapped := List.forall_mem_cons.mpr ⟨hmapped, h.mapped⟩
  samples := List.forall_mem_cons.mpr ⟨hsample, h.samples⟩
  aggregates := List.forall_mem_cons.mpr ⟨haggregate, h.aggregates⟩
  offsets := Nat.le_trans hoffset h.offsets
  seen := fun hsome => h.seen (hseen hsome)

/-- What the scan over the terms has checked. -/
theorem scanTerms_scanned {rule : ConstraintRule} {terms : List ConstraintTerm} {scan out : TermScan}
    (hfirst : scan.firstSample = true → scan.previousOffset = 0)
    (h : scanTerms rule terms scan = .ok out) : TermsScanned rule terms scan out := by
  induction terms generalizing scan with
  | nil =>
      rw [scanTerms] at h
      obtain rfl := Except.ok.inj h
      exact ⟨fun _ hterm => absurd hterm List.not_mem_nil,
        fun _ hterm => absurd hterm List.not_mem_nil,
        fun _ hterm => absurd hterm List.not_mem_nil, le_refl _, id⟩
  | cons term terms ih =>
      rw [scanTerms] at h
      split at h
      · cases h
      split at h
      · cases h
      rename_i hmapped
      have hfound : ∃ s, rule.variableMapping.find term.variableName = some s :=
        Option.ne_none_iff_exists'.mp fun hnone => hmapped (by rw [hnone]; rfl)
      by_cases hkind : isWindowAggregation term.aggregation = true
      · rw [if_pos hkind] at h
        split at h
        · cases h
        rename_i hzero
        have hrest : TermsScanned rule terms { scan with hasAggregate := true } out := ih hfirst h
        have haggregate : term.aggregation ≠ .sample := of_decide_eq_true hkind
        exact hrest.cons hfound (fun hsample => absurd hsample haggregate)
          (fun _ => not_not.mp hzero) (le_refl _) id
      · rw [if_neg hkind] at h
        split at h
        · cases h
        rename_i hordered
        have hrest := ih (fun hno => (by cases hno)) h
        -- the offset of the term is not below the one before it
        have hoffset : scan.previousOffset ≤ term.sampleOffset := by
          simp only [Bool.or_eq_true, Bool.and_eq_true, decide_eq_true_eq, Bool.not_eq_true',
            not_or, not_and, not_not, Nat.not_lt] at hordered
          cases hf : scan.firstSample with
          | true =>
              rw [hfirst hf]
              exact Nat.zero_le _
          | false => exact hordered.2 hf
        exact hrest.cons hfound (fun _ => ⟨hrest.seen rfl, hrest.offsets⟩)
          (fun hne => absurd (decide_eq_true hne) hkind) hoffset fun _ => rfl

/-- Every offset of an accepted rule is within its largest one. -/
theorem accepted_rule {rule : ConstraintRule} {properties : ConstraintRuleProperties}
    (h : validateConstraintRule rule = .ok properties) :
    (∀ term ∈ rule.terms, ∃ s, rule.variableMapping.find term.variableName = some s) ∧
      ∀ term ∈ rule.terms, term.sampleOffset ≤ properties.maximumSampleOffset := by
  obtain ⟨-, -, -, scan, hscan, -, hproperties⟩ := validateConstraintRule_inv h
  have hscanned := scanTerms_scanned (fun _ => rfl) hscan
  refine ⟨hscanned.mapped, fun term hterm => ?_⟩
  rw [hproperties]
  by_cases hsample : term.aggregation = .sample
  · obtain ⟨hsome, hle⟩ := hscanned.samples term hterm hsample
    rw [if_pos hsome]
    exact hle
  · rw [hscanned.aggregates term hterm hsample]
    exact Nat.zero_le _

/-- An evaluation fails as one of its terms does. -/
theorem evaluateRuleAt_inside {rule : ConstraintRule} {time : Timestamp}
    {resolve : ConstraintTerm → SequenceId → Except String ResolvedTermValue}
    (h : ∀ term ∈ rule.terms, ∀ s, resolve term s ≠ .error strayRead) :
    evaluateRuleAt rule time resolve ≠ .error strayRead := by
  intro herror
  rw [evaluateRuleAt] at herror
  rcases resolveTerms_cases rule resolve rule.terms with
    ⟨-, values, hvalues⟩ | ⟨term, hterm, other, hother, hfailed⟩
  · rw [hvalues] at herror
    simp only at herror
    split at herror
    · cases herror
    · cases herror
  · rw [hfailed] at herror
    exact h term hterm _ (by rw [hother, Except.error.inj herror])

/-- A term within the window is not read outside. -/
theorem resolveSample_inside {window : List RawTimeseriesPoint} {term : ConstraintTerm}
    {s : SequenceId} (h : term.sampleOffset < window.length) :
    resolveSample window term s ≠ .error strayRead := by
  intro herror
  rw [resolveSample, List.getElem?_eq_getElem h] at herror
  simp only at herror
  split at herror
  · exact absurd (Except.error.inj herror) (by decide)
  · split at herror
    · exact absurd (Except.error.inj herror) (by decide)
    · cases herror

theorem resolveAligned_inside {window : List AlignedSample} {term : ConstraintTerm}
    {s : SequenceId} (h : term.sampleOffset < window.length) :
    resolveAligned window term s ≠ .error strayRead := by
  intro herror
  rw [resolveAligned, List.getElem?_eq_getElem h] at herror
  simp only at herror
  split at herror
  · have hprefix := hasPrefix_append "aligned sample is missing mapped sequence: " s
    rw [Except.error.inj herror] at hprefix
    exact absurd hprefix (by decide)
  · split at herror
    · exact absurd (Except.error.inj herror) (by decide)
    · cases herror

/-- A scan with room for the largest offset reads inside the points. -/
theorem checkAnchors_inside {rule : ConstraintRule} {m : Nat}
    (h : ∀ term ∈ rule.terms, term.sampleOffset ≤ m) (finish : Option Timestamp)
    (points : List RawTimeseriesPoint) : checkAnchors rule m finish points ≠ .error strayRead := by
  induction points with
  | nil =>
      intro herror
      cases herror
  | cons anchor rest ih =>
      intro herror
      rw [checkAnchors] at herror
      split at herror
      · cases herror
      rename_i hroom
      split at herror
      · cases herror
      have hinside : ∀ term ∈ rule.terms, ∀ s,
          resolveSample (anchor :: rest) term s ≠ .error strayRead := by
        intro term hterm s
        have hle := h term hterm
        exact resolveSample_inside (by rw [List.length_cons]; omega)
      cases hfound : evaluateRuleAt rule anchor.time (resolveSample (anchor :: rest)) with
      | error error =>
          rw [hfound] at herror
          rw [Except.error.inj herror] at hfound
          exact evaluateRuleAt_inside hinside hfound
      | ok found =>
          cases hrest : checkAnchors rule m finish rest with
          | error error =>
              rw [hfound, hrest] at herror
              rw [Except.error.inj herror] at hrest
              exact ih hrest
          | ok tally =>
              rw [hfound, hrest] at herror
              cases herror

/-- A scan of samples reads inside them. -/
theorem checkAlignedAnchors_inside {rule : ConstraintRule} {m : Nat}
    (h : ∀ term ∈ rule.terms, term.sampleOffset ≤ m) (finish : Option Timestamp)
    (samples : List AlignedSample) :
    checkAlignedAnchors rule m finish samples ≠ .error strayRead := by
  induction samples with
  | nil =>
      intro herror
      cases herror
  | cons anchor rest ih =>
      intro herror
      rw [checkAlignedAnchors] at herror
      split at herror
      · cases herror
      rename_i hroom
      split at herror
      · cases herror
      have hinside : ∀ term ∈ rule.terms, ∀ s,
          resolveAligned (anchor :: rest) term s ≠ .error strayRead := by
        intro term hterm s
        have hle := h term hterm
        exact resolveAligned_inside (by rw [List.length_cons]; omega)
      -- pending or evaluated, the anchor leaves the rest of the loop
      have hrest : ∀ error, checkAlignedAnchors rule m finish rest = .error error →
          error ≠ strayRead := fun error hrest heq => ih (by rw [hrest, heq])
      cases hfound : evaluateRuleAt rule anchor.time (resolveAligned (anchor :: rest)) with
      | error error =>
          rw [hfound] at herror
          simp only at herror
          split at herror
          · split at herror
            · rename_i other hother
              exact hrest other hother (Except.error.inj herror)
            · cases herror
          · rw [Except.error.inj herror] at hfound
            exact evaluateRuleAt_inside hinside hfound
      | ok found =>
          rw [hfound] at herror
          simp only at herror
          split at herror
          · rename_i other hother
            exact hrest other hother (Except.error.inj herror)
          · cases herror

/-- An accepted rule reads inside the points of its window. -/
theorem reads_inside {rule : ConstraintRule} {properties : ConstraintRuleProperties}
    (h : validateConstraintRule rule = .ok properties) : ReadsInside rule properties := by
  obtain ⟨hmapped, hoffsets⟩ := accepted_rule h
  refine ⟨hmapped, fun n i hi term hterm => ?_, ?_, ?_⟩
  · have hle := hoffsets term hterm
    omega
  · intro finish points
    exact checkAnchors_inside hoffsets finish points
  · intro finish samples
    exact checkAlignedAnchors_inside hoffsets finish samples

/-! ## A single sample rule -/

/-- One rule over either kind of data. -/
def checkOne (range : Option ConstraintCheckRange) :
    CheckInput → ConstraintRule → Except OperationResult RuleTally
  | .window data => checkWindowRule data range
  | .aligned data => checkAlignedRule data range

/-- With too few points there are no anchors. -/
theorem tallied_short {α : Type} {series : Series α} {range : Option ConstraintCheckRange}
    {rule : ConstraintRule} (h : series.items.length ≤ maximumOffset rule) :
    Tallied series rule (anchors series range rule) {} := by
  have hnone : anchors series range rule = [] := by
    refine List.filter_eq_nil_iff.mpr fun i _ => ?_
    rw [isAnchor, decide_eq_false (by omega), Bool.false_and]
    exact Bool.false_ne_true
  rw [hnone]
  exact tallied_nil

/-- A rule over a window is tallied over the anchors of its sequence. -/
theorem checkWindowRule_tallied {data : WindowData} {range : Option ConstraintCheckRange}
    {rule : ConstraintRule} {tally : RuleTally} (horder : InOrder (.window data))
    (hsamples : AllSamples rule) (h : checkWindowRule data range rule = .ok tally) :
    ∃ s points, (∀ term ∈ rule.terms, rule.variableMapping.find term.variableName = some s) ∧
      data.sequenceValues.find s = some points ∧
      Tallied (pointSeries points) rule (anchors (pointSeries points) range rule) tally := by
  rw [checkWindowRule] at h
  cases hvalid : validateConstraintRule rule with
  | error error =>
      rw [hvalid] at h
      cases h
  | ok properties =>
      obtain ⟨hkind, hmaximum⟩ := validate_samples hsamples hvalid
      obtain ⟨hmapped, -⟩ := accepted_rule hvalid
      rw [hvalid] at h
      simp only [hkind, hmaximum] at h
      rw [if_neg (by decide)] at h
      cases hsingle : singleSequence rule with
      | none =>
          rw [hsingle] at h
          cases h
      | some s =>
          rw [hsingle] at h
          simp only at h
          cases hfind : data.sequenceValues.find s with
          | none =>
              rw [hfind] at h
              cases h
          | some points =>
              rw [hfind] at h
              simp only at h
              have hsequence : ∀ term ∈ rule.terms,
                  rule.variableMapping.find term.variableName = some s := by
                intro term hterm
                obtain ⟨t, ht⟩ := hmapped term hterm
                have htarget : t ∈ mappingTargets rule := List.mem_filterMap.mpr
                  ⟨term.variableName, (rule.variableMapping.mem_keys _).mpr (by rw [ht]; rfl), ht⟩
                rw [ht, (mappingTargets_single hsingle t).mp htarget]
              refine ⟨s, points, hsequence, hfind, ?_⟩
              split at h
              · rename_i hshort
                rw [← Except.ok.inj h]
                exact tallied_short hshort
              · cases hloop : checkAnchors rule (maximumOffset rule)
                    (range.map ConstraintCheckRange.endTime) (fromFirstAnchor range points) with
                | error error =>
                    rw [hloop] at h
                    cases h
                | ok found =>
                    rw [hloop] at h
                    have hsorted : Ordered (pointSeries points).timeOf (pointSeries points).items :=
                      horder s points hfind
                    obtain ⟨k, hstart, hvisited⟩ := visited_anchors hsorted range rule
                    have hfrom : fromFirstAnchor range points = fromStart (pointSeries points) range := by
                      cases range with
                      | none => rfl
                      | some range => rfl
                    rw [hfrom] at hloop
                    rw [← Except.ok.inj h, ← hvisited]
                    exact checkAnchors_tallied hstart hloop

/-- Samples that pass the check are in order. -/
theorem ordered_of_increasing {samples : List AlignedSample} (h : samplesIncreasing samples = true) :
    Ordered AlignedSample.time samples := by
  induction samples with
  | nil => exact List.Pairwise.nil
  | cons first rest ih =>
      cases rest with
      | nil => exact List.pairwise_singleton _ first
      | cons second rest =>
          rw [samplesIncreasing] at h
          split at h
          · cases h
          rename_i hlt
          have hrest := ih h
          refine List.Pairwise.cons (List.forall_mem_cons.mpr ⟨le_of_lt (not_le.mp hlt), ?_⟩) hrest
          intro later hlater
          exact le_trans (le_of_lt (not_le.mp hlt)) ((List.pairwise_cons.mp hrest).1 later hlater)

/-- A rule over samples is tallied over its anchors. -/
theorem checkAlignedRule_tallied {data : AlignedWindowData} {range : Option ConstraintCheckRange}
    {rule : ConstraintRule} {tally : RuleTally} (horder : samplesIncreasing data.samples = true)
    (hsamples : AllSamples rule) (h : checkAlignedRule data range rule = .ok tally) :
    Tallied (sampleSeries data.samples) rule (anchors (sampleSeries data.samples) range rule)
      tally := by
  rw [checkAlignedRule] at h
  cases hvalid : validateConstraintRule rule with
  | error error =>
      rw [hvalid] at h
      cases h
  | ok properties =>
      obtain ⟨hkind, hmaximum⟩ := validate_samples hsamples hvalid
      rw [hvalid] at h
      simp only [hkind, hmaximum] at h
      rw [if_neg (by decide)] at h
      split at h
      · rename_i hshort
        rw [← Except.ok.inj h]
        exact tallied_short hshort
      · cases hloop : checkAlignedAnchors rule (maximumOffset rule)
            (range.map ConstraintCheckRange.endTime) (fromFirstSample range data.samples) with
        | error error =>
            rw [hloop] at h
            cases h
        | ok found =>
            rw [hloop] at h
            have hsorted : Ordered (sampleSeries data.samples).timeOf
                (sampleSeries data.samples).items := ordered_of_increasing horder
            obtain ⟨k, hstart, hvisited⟩ := visited_anchors hsorted range rule
            have hfrom : fromFirstSample range data.samples =
                fromStart (sampleSeries data.samples) range := by
              cases range with
              | none => rfl
              | some range => rfl
            rw [hfrom] at hloop
            rw [← Except.ok.inj h, ← hvisited]
            exact checkAlignedAnchors_tallied hstart hloop

/-! ## The clauses of a list -/

/-- The first rule of every clause, in the order of the list. -/
theorem clauseKeys_heads {rules : List ConstraintRule} (seen : List String) :
    ∃ heads : List ConstraintRule, heads.Sublist rules ∧
      rules.foldl (fun keys rule => pushUnique (clauseKey rule) keys) seen =
        seen ++ heads.map clauseKey ∧
      heads.Pairwise (fun a b => clauseKey a ≠ clauseKey b) ∧
      (∀ head ∈ heads, clauseKey head ∉ seen) ∧
      ∀ rule ∈ rules, clauseKey rule ∈ seen ∨ ∃ head ∈ heads, clauseKey head = clauseKey rule := by
  induction rules generalizing seen with
  | nil =>
      exact ⟨[], List.Sublist.slnil, (List.append_nil seen).symm, List.Pairwise.nil,
        fun _ h => absurd h List.not_mem_nil, fun _ h => absurd h List.not_mem_nil⟩
  | cons rule rules ih =>
      rw [List.foldl_cons]
      by_cases hknown : clauseKey rule ∈ seen
      · obtain ⟨heads, hsub, hfold, hapart, hfresh, hcover⟩ := ih seen
        rw [pushUnique, if_pos hknown]
        exact ⟨heads, hsub.cons rule, hfold, hapart, hfresh,
          List.forall_mem_cons.mpr ⟨Or.inl hknown, hcover⟩⟩
      · obtain ⟨heads, hsub, hfold, hapart, hfresh, hcover⟩ := ih (seen ++ [clauseKey rule])
        rw [pushUnique, if_neg hknown]
        refine ⟨rule :: heads, hsub.cons_cons rule, ?_, ?_, ?_, ?_⟩
        · rw [hfold, List.append_assoc, List.map_cons, List.singleton_append]
        · refine List.Pairwise.cons (fun head hhead heq => ?_) hapart
          exact hfresh head hhead (List.mem_append_right _ (List.mem_singleton.mpr heq.symm))
        · refine List.forall_mem_cons.mpr ⟨hknown, fun head hhead hseen => ?_⟩
          exact hfresh head hhead (List.mem_append_left _ hseen)
        · refine List.forall_mem_cons.mpr ⟨Or.inr ⟨rule, List.mem_cons_self .., rfl⟩, ?_⟩
          intro other hother
          rcases hcover other hother with hin | ⟨head, hhead, hkey⟩
          · rcases List.mem_append.mp hin with hold | hnew
            · exact Or.inl hold
            · exact Or.inr ⟨rule, List.mem_cons_self .., (List.mem_singleton.mp hnew).symm⟩
          · exact Or.inr ⟨head, List.mem_cons_of_mem _ hhead, hkey⟩

/-- What the checks of the single rules found. -/
def tallyOf (one : ConstraintRule → Except OperationResult RuleTally) (rule : ConstraintRule) :
    RuleTally :=
  (one rule).toOption.getD {}

/-- When all rules are checked, each outcome is that of its rule. -/
theorem outcomes_eq {one : ConstraintRule → Except OperationResult RuleTally}
    {rules : List ConstraintRule} {outcomes : List RuleCheckOutcome}
    (h : checkRules one rules = .ok outcomes) :
    outcomes = rules.map (fun rule => ⟨rule, tallyOf one rule⟩) ∧
      ∀ rule ∈ rules, one rule = .ok (tallyOf one rule) := by
  obtain ⟨hrules, hall⟩ := checkRules_ok h
  have htally : ∀ outcome ∈ outcomes, tallyOf one outcome.rule = outcome.tally := by
    intro outcome hmem
    rw [tallyOf, hall outcome hmem]
    rfl
  constructor
  · rw [← hrules, List.map_map]
    refine (List.map_id outcomes).symm.trans (List.map_congr_left fun outcome hmem => ?_)
    show outcome = ⟨outcome.rule, tallyOf one outcome.rule⟩
    rw [htally outcome hmem]
  · intro rule hrule
    rw [← hrules] at hrule
    obtain ⟨outcome, hmem, rfl⟩ := List.mem_map.mp hrule
    rw [htally outcome hmem]
    exact hall outcome hmem

/-- The combination of one outcome is the outcome. -/
theorem combine_single (p : ProjectId) (rule : ConstraintRule) (tally : RuleTally) :
    (combineRuleOutcomes p [⟨rule, tally⟩]).operation.code = .ok ∧
      (combineRuleOutcomes p [⟨rule, tally⟩]).evaluatedCount = tally.evaluatedCount ∧
      (combineRuleOutcomes p [⟨rule, tally⟩]).pendingCount = tally.pendingCount ∧
      (combineRuleOutcomes p [⟨rule, tally⟩]).violations = tally.violations := by
  refine ⟨rfl, Nat.add_zero _, Nat.add_zero _, ?_⟩
  have hone : ([(⟨rule, tally⟩ : RuleCheckOutcome)].map fun outcome => clauseKey outcome.rule).Nodup :=
    List.nodup_singleton _
  rw [combine_violations p hone]
  exact List.append_nil _

/-- The clauses of a combination, by the rules that share them. -/
theorem combine_clauses (p : ProjectId) {rules : List ConstraintRule}
    (hsame : ∀ a ∈ rules, ∀ b ∈ rules, a.constraintId = b.constraintId → a = b)
    (tally : ConstraintRule → RuleTally) {alone : ConstraintRule → ConstraintCheckResult}
    (halone : ∀ rule ∈ rules, (alone rule).violations = (tally rule).violations) :
    ((combineRuleOutcomes p (rules.map fun rule => ⟨rule, tally rule⟩)).satisfied = true ↔
      ∀ rule ∈ rules, ClauseSatisfied alone rules rule) ∧
    ∃ heads : List ConstraintRule, heads.Sublist rules ∧
      heads.Pairwise (fun a b => ¬ SameClause a b) ∧
      (∀ rule ∈ rules, ∃ head ∈ heads, SameClause head rule) ∧
      (combineRuleOutcomes p (rules.map fun rule => ⟨rule, tally rule⟩)).violations =
        heads.flatMap (clauseReport alone rules) := by
  have hclause : ∀ {a b}, a ∈ rules → b ∈ rules → (SameClause a b ↔ clauseKey a = clauseKey b) :=
    fun ha hb => sameClause_iff_key (hsame _ ha _ hb)
  obtain ⟨heads, hsub, hfold, hapart, -, hcover⟩ := @clauseKeys_heads rules []
  have hkeys : clauseKeys (rules.map fun rule => (⟨rule, tally rule⟩ : RuleCheckOutcome)) =
      heads.map clauseKey := by
    rw [clauseKeys, List.foldl_map]
    exact hfold
  have hcovered : ∀ rule ∈ rules, ∃ head ∈ heads, clauseKey head = clauseKey rule := by
    intro rule hrule
    exact (hcover rule hrule).resolve_left List.not_mem_nil
  -- the outcomes of a clause are those of its rules
  have hfilter : ∀ head, (rules.map fun rule => (⟨rule, tally rule⟩ : RuleCheckOutcome)).filter
        (fun outcome => clauseKey outcome.rule = clauseKey head) =
      (rules.filter fun rule => clauseKey rule = clauseKey head).map
        fun rule => ⟨rule, tally rule⟩ := by
    intro head
    rw [List.filter_map]
    rfl
  have hsatisfied : ∀ head ∈ rules,
      (((rules.map fun rule => (⟨rule, tally rule⟩ : RuleCheckOutcome)).filter
        fun outcome => clauseKey outcome.rule = clauseKey head).any
          fun outcome => outcome.tally.violations.isEmpty) = true ↔
        ClauseSatisfied alone rules head := by
    intro head hhead
    rw [hfilter, List.any_map, List.any_eq_true]
    constructor
    · rintro ⟨rule, hmem, hempty⟩
      obtain ⟨hrule, hkey⟩ := List.mem_filter.mp hmem
      refine ⟨rule, hrule, (hclause hhead hrule).mpr (of_decide_eq_true hkey).symm, ?_⟩
      rw [halone rule hrule]
      exact List.isEmpty_iff.mp hempty
    · rintro ⟨rule, hrule, hshared, hempty⟩
      rw [halone rule hrule] at hempty
      refine ⟨rule, List.mem_filter.mpr ⟨hrule, decide_eq_true ?_⟩, List.isEmpty_iff.mpr hempty⟩
      exact ((hclause hhead hrule).mp hshared).symm
  constructor
  · show (clauseKeys _).all (clauseSatisfied _) = true ↔ _
    rw [hkeys, List.all_map, List.all_eq_true]
    constructor
    · intro hall rule hrule
      obtain ⟨head, hhead, hkey⟩ := hcovered rule hrule
      have hone := hall head hhead
      rw [Function.comp_apply, clauseSatisfied, hkey] at hone
      exact (hsatisfied rule hrule).mp hone
    · intro hall head hhead
      exact (hsatisfied head (hsub.subset hhead)).mpr (hall head (hsub.subset hhead))
  · refine ⟨heads, hsub, ?_, fun rule hrule => ?_, ?_⟩
    · refine hapart.imp_of_mem fun ha hb hne hshared => ?_
      exact hne ((hclause (hsub.subset ha) (hsub.subset hb)).mp hshared)
    · obtain ⟨head, hhead, hkey⟩ := hcovered rule hrule
      exact ⟨head, hhead, (hclause (hsub.subset hhead) hrule).mpr hkey⟩
    · show (clauseKeys _).flatMap (clauseViolations _) = _
      rw [hkeys, List.flatMap_map]
      refine List.flatMap_congr fun head hhead => ?_
      have hrule := hsub.subset hhead
      rw [clauseViolations, clauseReport]
      by_cases hsat : ClauseSatisfied alone rules head
      · rw [if_pos hsat, if_pos ((hsatisfied head hrule).mpr hsat)]
      · rw [if_neg hsat, if_neg fun h => hsat ((hsatisfied head hrule).mp h), hfilter,
          List.flatMap_map, clauseOf]
        have hmembers : (rules.filter fun rule => clauseKey rule = clauseKey head) =
            rules.filter fun rule => @decide (SameClause head rule) (Classical.propDecidable _) := by
          refine List.filter_congr fun rule hmem => ?_
          refine decide_eq_decide.mpr ?_
          rw [hclause hrule hmem]
          exact eq_comm
        rw [hmembers]
        refine List.flatMap_congr fun rule hmem => ?_
        exact (halone rule (List.mem_filter.mp hmem).1).symm

/-! ## The whole check -/

/-- An error is not a success. -/
theorem checkAlignedRule_error {data : AlignedWindowData} {range : Option ConstraintCheckRange}
    {rule : ConstraintRule} {operation : OperationResult}
    (h : checkAlignedRule data range rule = .error operation) : operation.code ≠ .ok := by
  rw [checkAlignedRule] at h
  split at h
  · rw [← Except.error.inj h]
    exact fun hno => (by cases hno)
  split at h
  · rw [← Except.error.inj h]
    exact fun hno => (by cases hno)
  split at h
  · cases h
  split at h
  · rw [← Except.error.inj h]
    exact fun hno => (by cases hno)
  · cases h

theorem checkOne_error {range : Option ConstraintCheckRange} {input : CheckInput}
    {rule : ConstraintRule} {operation : OperationResult}
    (h : checkOne range input rule = .error operation) : operation.code ≠ .ok := by
  cases input with
  | window data =>
      intro hok
      have hfailed := checkWindowRule_error h
      rw [hok] at hfailed
      cases hfailed
  | aligned data => exact checkAlignedRule_error h

/-- The data of a check that returns Ok are accepted, whatever the rules. -/
theorem check_runs {p : ProjectId} {rules : List ConstraintRule} {range : Option ConstraintCheckRange}
    {input : CheckInput} (hok : (check p rules range input).operation.code = .ok) :
    rules ≠ [] ∧ (∀ data, input = .aligned data → samplesIncreasing data.samples = true) ∧
      ∀ others : List ConstraintRule, others ≠ [] →
        check p others range input = finishCheck p (checkRules (checkOne range input) others) := by
  have hrejected : ∀ message, (failure (invalidArgument message)).operation.code ≠ .ok :=
    fun _ hno => (by cases hno)
  cases input with
  | window data =>
      rw [check, checkWindow] at hok
      split at hok
      · exact absurd hok (hrejected _)
      rename_i hrules
      split at hok
      · exact absurd hok (hrejected _)
      rename_i hwindow
      split at hok
      · exact absurd hok (hrejected _)
      rename_i hkeys
      split at hok
      · exact absurd hok (hrejected _)
      rename_i hvalid
      refine ⟨fun hnil => hrules (by rw [hnil]; rfl), fun _ hno => (by cases hno), ?_⟩
      intro others hothers
      have hsome : ¬ others.isEmpty = true := fun hempty => hothers (List.isEmpty_iff.mp hempty)
      rw [check, checkWindow, if_neg hsome, if_neg hwindow, if_neg hkeys, hvalid]
      rfl
  | aligned data =>
      rw [check, checkAligned] at hok
      split at hok
      · exact absurd hok (hrejected _)
      rename_i hrules
      split at hok
      · exact absurd hok (hrejected _)
      rename_i hwindow
      split at hok
      · exact absurd hok (hrejected _)
      rename_i hsamples
      split at hok
      · exact absurd hok (hrejected _)
      rename_i hincreasing
      split at hok
      · exact absurd hok (hrejected _)
      rename_i hvalid
      refine ⟨fun hnil => hrules (by rw [hnil]; rfl), ?_, ?_⟩
      · intro other hother
        obtain rfl := CheckInput.aligned.inj hother
        simpa using hincreasing
      · intro others hothers
        have hsome : ¬ others.isEmpty = true := fun hempty => hothers (List.isEmpty_iff.mp hempty)
        rw [check, checkAligned, if_neg hsome, if_neg hwindow, if_neg hsamples, if_neg hincreasing,
          hvalid]
        rfl

/-- A tally over the anchors gives a result its meaning. -/
theorem RuleMeaning.of_tallied {α : Type} {series : Series α} {range : Option ConstraintCheckRange}
    {rule : ConstraintRule} {tally : RuleTally} {result : ConstraintCheckResult}
    (h : Tallied series rule (anchors series range rule) tally)
    (hevaluated : result.evaluatedCount = tally.evaluatedCount)
    (hpending : result.pendingCount = tally.pendingCount)
    (hviolations : result.violations = tally.violations) : RuleMeaning series range rule result where
  numeric := by
    intro i hi
    obtain ⟨hanchor, hpresent⟩ := List.mem_filter.mp hi
    refine h.numeric i hanchor ?_
    rw [present] at hpresent
    simpa using hpresent
  evaluated := hevaluated.trans h.evaluated
  pending := hpending.trans h.pending
  violations := hviolations.trans h.violations

/-- A check that returns Ok means its clauses. -/
theorem checkMeaning {p : ProjectId} {rules : List ConstraintRule}
    {range : Option ConstraintCheckRange} {input : CheckInput}
    (hsame : ∀ a ∈ rules, ∀ b ∈ rules, a.constraintId = b.constraintId → a = b)
    (horder : InOrder input) (hok : (check p rules range input).operation.code = .ok) :
    CheckMeaning input range rules (fun rule => check p [rule] range input)
      (check p rules range input) := by
  obtain ⟨hrules, hincreasing, hruns⟩ := check_runs hok
  rw [hruns rules hrules] at hok ⊢
  cases hloop : checkRules (checkOne range input) rules with
  | error operation =>
      rw [hloop] at hok
      obtain ⟨rule, -, herror⟩ := checkRules_error hloop
      exact absurd hok (checkOne_error herror)
  | ok outcomes =>
      obtain ⟨rfl, hall⟩ := outcomes_eq hloop
      -- the check of a rule alone is its outcome
      have halone : ∀ rule ∈ rules, check p [rule] range input =
          combineRuleOutcomes p [⟨rule, tallyOf (checkOne range input) rule⟩] := by
        intro rule hrule
        rw [hruns [rule] (List.cons_ne_nil _ _), checkRules, hall rule hrule]
        rfl
      have hsingle : ∀ rule ∈ rules, _ := fun rule hrule =>
        combine_single p rule (tallyOf (checkOne range input) rule)
      have hclauses := combine_clauses p hsame (tallyOf (checkOne range input))
        (fun rule hrule => show (check p [rule] range input).violations = _ by
          rw [halone rule hrule]
          exact (hsingle rule hrule).2.2.2)
      refine ⟨fun rule hrule => ?_, fun rule hrule hsamples => ?_, ?_, ?_, hclauses.1, hclauses.2⟩
      · rw [halone rule hrule]
        exact (hsingle rule hrule).1
      · rw [halone rule hrule]
        obtain ⟨-, hevaluated, hpending, hviolations⟩ := hsingle rule hrule
        cases input with
        | window data =>
            obtain ⟨s, points, hmapped, hfind, htallied⟩ :=
              checkWindowRule_tallied horder hsamples (hall rule hrule)
            exact ⟨s, points, hmapped, hfind,
              .of_tallied htallied hevaluated hpending hviolations⟩
        | aligned data =>
            exact .of_tallied
              (checkAlignedRule_tallied (hincreasing data rfl) hsamples (hall rule hrule))
              hevaluated hpending hviolations
      · show (((rules.map _).map _).sum : Nat) = _
        rw [List.map_map]
        refine congrArg List.sum (List.map_congr_left fun rule hrule => ?_)
        show (tallyOf (checkOne range input) rule).evaluatedCount = _
        rw [halone rule hrule]
        exact (hsingle rule hrule).2.1.symm
      · show (((rules.map _).map _).sum : Nat) = _
        rw [List.map_map]
        refine congrArg List.sum (List.map_congr_left fun rule hrule => ?_)
        show (tallyOf (checkOne range input) rule).pendingCount = _
        rw [halone rule hrule]
        exact (hsingle rule hrule).2.2.1.symm

/-- **The check has the semantics of its clauses**, and no accepted rule reads outside
    its mappings and its series. -/
theorem check_meaning :
    (∀ (p : ProjectId) (rules : List ConstraintRule) (range : Option ConstraintCheckRange)
      (input : CheckInput),
      (∀ a ∈ rules, ∀ b ∈ rules, a.constraintId = b.constraintId → a = b) → InOrder input →
        (check p rules range input).operation.code = .ok →
          CheckMeaning input range rules (fun rule => check p [rule] range input)
            (check p rules range input)) ∧
      ∀ (rule : ConstraintRule) (properties : ConstraintRuleProperties),
        validateConstraintRule rule = .ok properties → ReadsInside rule properties := by
  constructor
  · intro p rules range input hsame horder hok
    exact checkMeaning hsame horder hok
  · intro rule properties h
    exact reads_inside h

/-- A bound on the sum of a flow and the next level. -/
private def flowRule (id : String) (upper : ℚ) : ConstraintRule where
  constraintId := id
  variableMapping := put "x" "flow" (put "y" "level" KeyedTable.empty)
  upperBound := some (.finite upper)
  terms :=
    [{ variableName := "x", coefficient := .finite 1, sampleOffset_le := Nat.zero_le uint64Max },
      { variableName := "y", coefficient := .finite 2, sampleOffset := 1,
        sampleOffset_le := Nat.le_of_ble_eq_true rfl }]
  orGroupId := "either"

/-- Four samples of two sequences; one lacks a level. -/
private def flowSamples : AlignedWindowData where
  windowStartTime := 0
  windowEndTime := 40
  samples :=
    [{ time := 0, values := put "flow" (.int64 1) (put "level" (.int64 1) KeyedTable.empty) },
     { time := 10, values := put "flow" (.int64 4) (put "level" (.int64 5) KeyedTable.empty) },
     { time := 20, values := put "flow" (.int64 2) KeyedTable.empty },
     { time := 30, values := put "flow" (.int64 9) (put "level" (.int64 3) KeyedTable.empty) }]

/-- One clause of two rules: the first is violated at 0, the second nowhere, and the sample
    at 20 keeps the anchor at 10 pending. -/
theorem check_meaning_either :
    CheckMeaning (.aligned flowSamples) none [flowRule "low" 10, flowRule "high" 20]
        (fun rule => check "" [rule] none (.aligned flowSamples))
        (check "" [flowRule "low" 10, flowRule "high" 20] none (.aligned flowSamples)) ∧
      (check "" [flowRule "low" 10, flowRule "high" 20] none (.aligned flowSamples)).satisfied =
        true ∧
      (check "" [flowRule "low" 10] none (.aligned flowSamples)).satisfied = false ∧
      (check "" [flowRule "low" 10] none (.aligned flowSamples)).pendingCount = 1 := by
  refine ⟨check_meaning.1 _ _ _ _ ?_ trivial (by decide +kernel), by decide +kernel,
    by decide +kernel, by decide +kernel⟩
  intro a ha b hb hid
  rcases List.mem_cons.mp ha with rfl | ha
  · rcases List.mem_cons.mp hb with rfl | hb
    · rfl
    · obtain rfl := List.mem_singleton.mp hb
      exact absurd hid (by decide)
  · obtain rfl := List.mem_singleton.mp ha
    rcases List.mem_cons.mp hb with rfl | hb
    · exact absurd hid (by decide)
    · obtain rfl := List.mem_singleton.mp hb
      rfl

end ClauseSemantics
