import TimeSeriesEngine.WindowService

/-!
# Constraint rules and the check engine

A rule bounds a linear combination of terms.  A sample term reads the value
`sampleOffset` positions behind an anchor, an aggregate term reads a statistic
of the whole window.  This file is `constraint_rule_helpers.hpp` and
`constraint_check_engine.cpp`:

* `validateConstraintRule` — the structural checks, in the order of the source;
* `checkAnchors` — the positional loop over one sequence;
* `checkAlignedAnchors` — the same loop over aligned samples;
* `combineRuleOutcomes` — OR groups, messages, counts;
* `checkWindow`, `checkAligned`, `checkStatistics` — the three entry points.
-/

namespace ConstraintCheck

open TseTypes KeyedTable OrderedSeries HotWindow

/-- `ConstraintAggregation`: a sample, or one number of a window. -/
inductive ConstraintAggregation where
  | sample
  | average
  | maximum
  | minimum
  deriving DecidableEq

theorem offset_zero_le : 0 ≤ uint64Max := Nat.zero_le _

/-- A term of a rule: a coefficient and what it is multiplied by. -/
structure ConstraintTerm where
  variableName : String
  coefficient : Double
  sampleOffset : Nat := 0
  aggregation : ConstraintAggregation := .sample
  /-- The offset is a `std::size_t`. -/
  sampleOffset_le : sampleOffset ≤ uint64Max := by decide
  deriving DecidableEq

/-- `ConstraintRule`: bounds on a sum of terms; rules of one group are alternatives. -/
structure ConstraintRule where
  constraintId : String
  variableMapping : Table String SequenceId
  lowerBound : Option Double := none
  upperBound : Option Double := none
  terms : List ConstraintTerm
  orGroupId : String := ""

/-- What a violation reports of a term. -/
structure ConstraintTermValue where
  variableName : String
  sequenceId : SequenceId
  coefficient : Double
  sampleOffset : Nat
  sampleTime : Timestamp
  value : ℚ
  aggregation : ConstraintAggregation
  deriving DecidableEq

/-- A violated anchor, with the sum and the terms that made it. -/
structure ConstraintViolation where
  constraintId : String
  anchorTime : Timestamp
  lowerBound : Option Double
  upperBound : Option Double
  evaluatedValue : ℚ
  termValues : List ConstraintTermValue
  orGroupId : String
  deriving DecidableEq

/-- What a check reports. -/
structure ConstraintCheckResult where
  operation : OperationResult := {}
  projectId : ProjectId := ""
  evaluatedCount : Nat := 0
  pendingCount : Nat := 0
  satisfied : Bool := false
  violations : List ConstraintViolation := []
  deriving DecidableEq

/-- The anchors to check, both ends included. -/
structure ConstraintCheckRange where
  startTime : Timestamp
  endTime : Timestamp
  deriving DecidableEq

/-- The values of the sequences at one time. -/
structure AlignedSample where
  time : Timestamp
  values : Table SequenceId TimeseriesValue

/-- A window of aligned samples. -/
structure AlignedWindowData where
  windowStartTime : Timestamp := 0
  windowEndTime : Timestamp := 0
  samples : List AlignedSample := []
  projectId : ProjectId := ""

/-! ## Rules -/

/-- A rule reads samples, or statistics of the window. -/
inductive ConstraintRuleKind where
  | sample
  | windowAggregate
  deriving DecidableEq

/-- What the validation of a rule finds out. -/
structure ConstraintRuleProperties where
  kind : ConstraintRuleKind
  maximumSampleOffset : Nat
  deriving DecidableEq

/-- The term reads a number of the window. -/
def isWindowAggregation (aggregation : ConstraintAggregation) : Bool :=
  decide (aggregation ≠ .sample)

/-- A bound that is present and not finite. -/
def badBound (bound : Option Double) : Bool := bound.any fun d => !isFinite d

/-- Both bounds present and in the wrong order. -/
def boundsCrossed (rule : ConstraintRule) : Bool :=
  match rule.lowerBound, rule.upperBound with
  | some lower, some upper => decide (number upper < number lower)
  | _, _ => false

/-- What the term loop of `validateConstraintRule` carries along. -/
structure TermScan where
  hasSample : Bool := false
  hasAggregate : Bool := false
  previousOffset : Nat := 0
  firstSample : Bool := true

/-- The term loop of `validateConstraintRule`. -/
def scanTerms (rule : ConstraintRule) : List ConstraintTerm → TermScan → Except String TermScan
  | [], scan => .ok scan
  | term :: terms, scan =>
      if term.variableName.isEmpty || !isFinite term.coefficient then
        .error "constraint terms must contain a variable and finite coefficient"
      else if (rule.variableMapping.find term.variableName).isNone then
        .error ("constraint term has no variable mapping: " ++ term.variableName)
      else if isWindowAggregation term.aggregation then
        if term.sampleOffset ≠ 0 then
          .error "window aggregate constraint terms must use sample_offset zero"
        else scanTerms rule terms { scan with hasAggregate := true }
      else if (scan.firstSample && decide (term.sampleOffset ≠ 0)) ||
          (!scan.firstSample && decide (term.sampleOffset < scan.previousOffset)) then
        .error "constraint offsets must start at zero and be nondecreasing"
      else
        scanTerms rule terms
          { scan with
            hasSample := true
            firstSample := false
            previousOffset := term.sampleOffset }

/-- `validateConstraintRule`: the properties, or the first error. -/
def validateConstraintRule (rule : ConstraintRule) : Except String ConstraintRuleProperties :=
  if rule.constraintId.isEmpty then .error "constraint_id must not be empty"
  else if rule.lowerBound.isNone && rule.upperBound.isNone then
    .error "constraint must contain a lower or upper bound"
  else if badBound rule.lowerBound || badBound rule.upperBound || boundsCrossed rule then
    .error "constraint bounds must be finite and ordered"
  else if rule.variableMapping.keys.isEmpty || rule.terms.isEmpty then
    .error "constraint mappings and terms must not be empty"
  else
    match scanTerms rule rule.terms {} with
    | .error error => .error error
    | .ok scan =>
        if scan.hasSample && scan.hasAggregate then
          .error "sample and window aggregate terms must not be mixed in one rule"
        else
          .ok
            { kind := if scan.hasAggregate then .windowAggregate else .sample
              maximumSampleOffset := if scan.hasSample then scan.previousOffset else 0 }

/-- What a rule that passes has been checked for. -/
theorem validateConstraintRule_inv {rule : ConstraintRule} {properties : ConstraintRuleProperties}
    (h : validateConstraintRule rule = .ok properties) :
    rule.constraintId ≠ "" ∧ rule.variableMapping.keys ≠ [] ∧ rule.terms ≠ [] ∧
      ∃ scan, scanTerms rule rule.terms {} = .ok scan ∧
        (scan.hasSample && scan.hasAggregate) = false ∧
        properties =
          { kind := if scan.hasAggregate then .windowAggregate else .sample
            maximumSampleOffset := if scan.hasSample then scan.previousOffset else 0 } := by
  unfold validateConstraintRule at h
  split at h
  · cases h
  rename_i hid
  split at h
  · cases h
  split at h
  · cases h
  split at h
  · cases h
  rename_i hempty
  rw [Bool.or_eq_true, not_or, List.isEmpty_iff, List.isEmpty_iff] at hempty
  split at h
  · cases h
  rename_i scan hscan
  split at h
  · cases h
  rename_i hmixed
  refine ⟨fun he => hid (by rw [he]; rfl), hempty.1, hempty.2, scan, hscan, ?_, ?_⟩
  · exact Bool.eq_false_iff.mpr hmixed
  · exact (Except.ok.inj h).symm

/-- The sequences a rule's variables map to, one entry per variable. -/
def mappingTargets (rule : ConstraintRule) : List SequenceId :=
  rule.variableMapping.keys.filterMap rule.variableMapping.find

/-- `hasSingleSequence`: the one sequence all variables map to. -/
def singleSequence (rule : ConstraintRule) : Option SequenceId :=
  match mappingTargets rule with
  | [] => none
  | first :: rest => if rest.all (fun s => decide (s = first)) then some first else none

/-- `rule.variable_mapping.at(term.variable)`; validation has found it. -/
def mappedSequence (rule : ConstraintRule) (term : ConstraintTerm) : SequenceId :=
  (rule.variableMapping.find term.variableName).getD ""

/-- `isWithinBounds`; a bound that is not set holds. -/
def isWithinBounds (value : ℚ) (rule : ConstraintRule) : Bool :=
  rule.lowerBound.all (fun lower => decide (number lower ≤ value)) &&
    rule.upperBound.all (fun upper => decide (value ≤ number upper))

/-! ## Evaluating one anchor -/

/-- The sample a term has found. -/
structure ResolvedTermValue where
  sampleTime : Timestamp
  value : ℚ

/-- The term values of one anchor, or the error of the first term that cannot be
    resolved. -/
def resolveTerms (rule : ConstraintRule)
    (resolve : ConstraintTerm → SequenceId → Except String ResolvedTermValue) :
    List ConstraintTerm → Except String (List ConstraintTermValue)
  | [] => .ok []
  | term :: terms =>
      match resolve term (mappedSequence rule term) with
      | .error error => .error error
      | .ok resolved =>
          match resolveTerms rule resolve terms with
          | .error error => .error error
          | .ok values =>
              .ok
                ({ variableName := term.variableName
                   sequenceId := mappedSequence rule term
                   coefficient := term.coefficient
                   sampleOffset := term.sampleOffset
                   sampleTime := resolved.sampleTime
                   value := resolved.value
                   aggregation := term.aggregation } :: values)

/-- The weighted sum of the term values. -/
def weightedSum (values : List ConstraintTermValue) : ℚ :=
  values.foldl (fun sum value => sum + number value.coefficient * value.value) 0

/-- `evaluateRuleAt`: the violation at an anchor, if there is one. -/
def evaluateRuleAt (rule : ConstraintRule) (anchorTime : Timestamp)
    (resolve : ConstraintTerm → SequenceId → Except String ResolvedTermValue) :
    Except String (Option ConstraintViolation) :=
  match resolveTerms rule resolve rule.terms with
  | .error error => .error error
  | .ok values =>
      if isWithinBounds (weightedSum values) rule then .ok none
      else
        .ok (some
          { constraintId := rule.constraintId
            anchorTime := anchorTime
            lowerBound := rule.lowerBound
            upperBound := rule.upperBound
            evaluatedValue := weightedSum values
            termValues := values
            orGroupId := rule.orGroupId })

/-- Reading a sample term: `window` is the sequence from the anchor on. -/
def resolveSample (window : List RawTimeseriesPoint) (term : ConstraintTerm)
    (mapped : SequenceId) : Except String ResolvedTermValue :=
  match window[term.sampleOffset]? with
  | none => .error "sample offset behind the end of the window"
  | some point =>
      if mapped != point.sequenceId then
        .error "window point sequence_id does not match its map key"
      else
        match numericValue point.value with
        | none => .error "constraint value must be a finite numeric value"
        | some value => .ok { sampleTime := point.time, value := value }

/-- What a rule check adds up. -/
structure RuleTally where
  evaluatedCount : Nat := 0
  pendingCount : Nat := 0
  violations : List ConstraintViolation := []
  deriving DecidableEq

/-- An evaluated anchor in front of the rest. -/
def RuleTally.evaluated (found : Option ConstraintViolation) (rest : RuleTally) : RuleTally :=
  { rest with
    evaluatedCount := rest.evaluatedCount + 1
    violations := found.toList ++ rest.violations }

/-- The anchor loop over one sequence, from its first anchor on: it ends when
    fewer than `maximumOffset + 1` points are left, or behind the range. -/
def checkAnchors (rule : ConstraintRule) (maximumOffset : Nat) (rangeEnd : Option Timestamp) :
    List RawTimeseriesPoint → Except String RuleTally
  | [] => .ok {}
  | anchor :: rest =>
      if rest.length < maximumOffset then .ok {}
      else if rangeEnd.any (fun finish => decide (finish < anchor.time)) then .ok {}
      else
        match evaluateRuleAt rule anchor.time (resolveSample (anchor :: rest)) with
        | .error error => .error error
        | .ok found =>
            match checkAnchors rule maximumOffset rangeEnd rest with
            | .error error => .error error
            | .ok tally => .ok (tally.evaluated found)

/-- Reading a term of an aligned sample. -/
def resolveAligned (window : List AlignedSample) (term : ConstraintTerm) (mapped : SequenceId) :
    Except String ResolvedTermValue :=
  match window[term.sampleOffset]? with
  | none => .error "sample offset behind the end of the window"
  | some sample =>
      match sample.values.find mapped with
      | none => .error ("aligned sample is missing mapped sequence: " ++ mapped)
      | some value =>
          match numericValue value with
          | none => .error "constraint value must be a finite numeric value"
          | some number => .ok { sampleTime := sample.time, value := number }

/-- The error says that a sample lacks a sequence. -/
def isMissingMappedSequenceError (error : String) : Bool :=
  hasPrefix "aligned sample is missing mapped sequence: " error

/-- The anchor loop over aligned samples; an anchor whose sample lacks a mapped
    sequence is pending, not an error. -/
def checkAlignedAnchors (rule : ConstraintRule) (maximumOffset : Nat)
    (rangeEnd : Option Timestamp) : List AlignedSample → Except String RuleTally
  | [] => .ok {}
  | anchor :: rest =>
      if rest.length < maximumOffset then .ok {}
      else if rangeEnd.any (fun finish => decide (finish < anchor.time)) then .ok {}
      else
        match evaluateRuleAt rule anchor.time (resolveAligned (anchor :: rest)) with
        | .error error =>
            if isMissingMappedSequenceError error then
              match checkAlignedAnchors rule maximumOffset rangeEnd rest with
              | .error error => .error error
              | .ok tally => .ok { tally with pendingCount := tally.pendingCount + 1 }
            else .error error
        | .ok found =>
            match checkAlignedAnchors rule maximumOffset rangeEnd rest with
            | .error error => .error error
            | .ok tally => .ok (tally.evaluated found)

/-! ## Aggregates -/

/-- The numbers of the points inside the window, or `none` when one of them is
    not numeric. -/
def windowNumbers (start finish : Timestamp) : List RawTimeseriesPoint → Option (List ℚ)
  | [] => some []
  | point :: points =>
      if point.time < start ∨ finish ≤ point.time then windowNumbers start finish points
      else
        match numericValue point.value, windowNumbers start finish points with
        | some value, some values => some (value :: values)
        | _, _ => none

/-- The statistics of a nonempty list of numbers. -/
def statisticsOf (first : ℚ) (rest : List ℚ) : SequenceWindowStatistics :=
  { count := rest.length + 1
    average := (first :: rest).sum / (rest.length + 1 : Nat)
    maximum := rest.foldl max first
    minimum := rest.foldl min first }

/-- `buildWindowStatisticsForRule`, term by term. -/
def buildStatistics (rule : ConstraintRule) (data : WindowData) :
    List ConstraintTerm → Table SequenceId SequenceWindowStatistics → List SequenceId →
      Except String (Table SequenceId SequenceWindowStatistics)
  | [], statistics, _ => .ok statistics
  | term :: terms, statistics, seen =>
      let sequenceId := mappedSequence rule term
      if sequenceId ∈ seen then buildStatistics rule data terms statistics seen
      else
        match data.sequenceValues.find sequenceId with
        | none => .error ("window data does not contain mapped sequence: " ++ sequenceId)
        | some points =>
            match windowNumbers data.windowStartTime data.windowEndTime points with
            | none =>
                .error "window aggregate constraint values must be finite numeric values"
            | some [] => buildStatistics rule data terms statistics (sequenceId :: seen)
            | some (first :: rest) =>
                buildStatistics rule data terms
                  (put sequenceId (statisticsOf first rest) statistics) (sequenceId :: seen)

/-- The number a term reads from the statistics. -/
def resolveAggregate (data : WindowStatisticsData) (term : ConstraintTerm)
    (mapped : SequenceId) : Except String ResolvedTermValue :=
  match data.sequenceStatistics.find mapped with
  | none => .error ("window aggregate sequence has no numeric samples: " ++ mapped)
  | some statistics =>
      if statistics.count = 0 then
        .error ("window aggregate sequence has no numeric samples: " ++ mapped)
      else
        match term.aggregation with
        | .average => .ok { sampleTime := data.windowEndTime, value := statistics.average }
        | .maximum => .ok { sampleTime := data.windowEndTime, value := statistics.maximum }
        | .minimum => .ok { sampleTime := data.windowEndTime, value := statistics.minimum }
        | .sample => .error "sample term cannot be evaluated from window statistics"

/-- `evaluateAggregateRule`: one evaluation, at the end of the window. -/
def evaluateAggregateRule (rule : ConstraintRule) (data : WindowStatisticsData) :
    Except String RuleTally :=
  if rule.terms.any (fun term =>
      (data.sequenceStatistics.find (mappedSequence rule term)).isNone) then
    .ok { pendingCount := 1 }
  else
    match evaluateRuleAt rule data.windowEndTime (resolveAggregate data) with
    | .error error => .error error
    | .ok found => .ok (RuleTally.evaluated found {})

/-! ## Combining the rules of a check -/

/-- A rule, and what its check has counted. -/
structure RuleCheckOutcome where
  rule : ConstraintRule
  tally : RuleTally

/-- OR groups share a clause, every other rule has its own. -/
def clauseKey (rule : ConstraintRule) : String :=
  if rule.orGroupId.isEmpty then "\x1f" ++ rule.constraintId else "\x1e" ++ rule.orGroupId

/-- The clauses in order of first appearance. -/
def clauseKeys (outcomes : List RuleCheckOutcome) : List String :=
  outcomes.foldl (fun keys outcome => pushUnique (clauseKey outcome.rule) keys) []

/-- A clause with one satisfied rule reports nothing. -/
def clauseViolations (outcomes : List RuleCheckOutcome) (key : String) :
    List ConstraintViolation :=
  let clause := outcomes.filter fun outcome => clauseKey outcome.rule = key
  if clause.any (fun outcome => outcome.tally.violations.isEmpty) then []
  else clause.flatMap fun outcome => outcome.tally.violations

/-- Some rule of the clause has no violation. -/
def clauseSatisfied (outcomes : List RuleCheckOutcome) (key : String) : Bool :=
  (outcomes.filter fun outcome => clauseKey outcome.rule = key).any
    fun outcome => outcome.tally.violations.isEmpty

/-- `combineRuleOutcomes`: the clauses that no rule satisfies are reported. -/
def combineRuleOutcomes (projectId : ProjectId) (outcomes : List RuleCheckOutcome) :
    ConstraintCheckResult :=
  let keys := clauseKeys outcomes
  let evaluated := (outcomes.map fun outcome => outcome.tally.evaluatedCount).sum
  let pending := (outcomes.map fun outcome => outcome.tally.pendingCount).sum
  let satisfied := keys.all (clauseSatisfied outcomes)
  let message :=
    (if satisfied then "constraint checks completed; all satisfied"
      else "constraint checks completed; violations found") ++
    (if pending ≠ 0 then
      "; " ++ toString pending ++
        " aligned samples pending because mapped sequence data was not available yet"
      else "")
  { operation := okResult evaluated message
    projectId := projectId
    evaluatedCount := evaluated
    pendingCount := pending
    satisfied := satisfied
    violations := keys.flatMap (clauseViolations outcomes) }

/-- `failure`. -/
def failure (operation : OperationResult) : ConstraintCheckResult :=
  { operation := operation, satisfied := false }

/-- Run a per-rule check over all rules; the first failing rule fails the check. -/
def checkRules (check : ConstraintRule → Except OperationResult RuleTally) :
    List ConstraintRule → Except OperationResult (List RuleCheckOutcome)
  | [] => .ok []
  | rule :: rules =>
      match check rule with
      | .error operation => .error operation
      | .ok tally =>
          match checkRules check rules with
          | .error operation => .error operation
          | .ok outcomes => .ok (⟨rule, tally⟩ :: outcomes)

/-- The result of a check, also of one that has failed. -/
def finishCheck (projectId : ProjectId) :
    Except OperationResult (List RuleCheckOutcome) → ConstraintCheckResult
  | .error operation => failure operation
  | .ok outcomes => combineRuleOutcomes projectId outcomes

/-! ## The three entry points -/

/-- The points from the first anchor of a check on. -/
def fromFirstAnchor (range : Option ConstraintCheckRange) (points : List RawTimeseriesPoint) :
    List RawTimeseriesPoint :=
  match range with
  | none => points
  | some range => atOrAbove RawTimeseriesPoint.time range.startTime points

/-- One rule over raw window data. -/
def checkWindowRule (data : WindowData) (range : Option ConstraintCheckRange)
    (rule : ConstraintRule) : Except OperationResult RuleTally :=
  match validateConstraintRule rule with
  | .error error => .error (invalidArgument error)
  | .ok properties =>
      if properties.kind = .windowAggregate then
        match buildStatistics rule data rule.terms KeyedTable.empty [] with
        | .error error => .error (invalidArgument error)
        | .ok statistics =>
            match evaluateAggregateRule rule
                { windowStartTime := data.windowStartTime
                  windowEndTime := data.windowEndTime
                  sequenceStatistics := statistics
                  projectId := data.projectId } with
            | .error error => .error (invalidArgument error)
            | .ok tally => .ok tally
      else
        match singleSequence rule with
        | none =>
            .error (failedPrecondition
              "WindowData can only check a rule mapped to one sequence; use AlignedWindowData for multi-sequence rules")
        | some sequenceId =>
            match data.sequenceValues.find sequenceId with
            | none =>
                .error (invalidArgument
                  ("window data does not contain mapped sequence: " ++ sequenceId))
            | some points =>
                if points.length ≤ properties.maximumSampleOffset then .ok {}
                else
                  match checkAnchors rule properties.maximumSampleOffset
                      (range.map ConstraintCheckRange.endTime) (fromFirstAnchor range points) with
                  | .error error => .error (invalidArgument error)
                  | .ok tally => .ok tally

/-- `checkConstraints` over raw window data, over everything or over a range. -/
def checkWindow (projectId : ProjectId) (rules : List ConstraintRule) (data : WindowData)
    (range : Option ConstraintCheckRange) : ConstraintCheckResult :=
  if rules.isEmpty then failure (invalidArgument "constraint rules must not be empty")
  else if data.windowEndTime < data.windowStartTime then
    failure (invalidArgument "window start time must not be after window end time")
  else if data.sequenceValues.keys.isEmpty then
    failure (invalidArgument "window data must contain at least one sequence")
  else
    match validateWindowData projectId data with
    | some error => failure (invalidArgument error)
    | none => finishCheck projectId (checkRules (checkWindowRule data range) rules)

/-- The scan for sample times that do not increase. -/
def samplesIncreasing : List AlignedSample → Bool
  | first :: second :: rest =>
      if second.time ≤ first.time then false else samplesIncreasing (second :: rest)
  | _ => true

/-- `validateAlignedWindowData`. -/
def validateAlignedWindowData (projectId : ProjectId) (data : AlignedWindowData) :
    Option String :=
  if data.projectId != projectId && !data.projectId.isEmpty then
    some "aligned window project_id does not match request project_id"
  else if data.windowEndTime < data.windowStartTime then
    some "aligned window start time must not be after end time"
  else if !samplesIncreasing data.samples then
    some "aligned sample times must be strictly increasing"
  else
    data.samples.findSome? fun sample =>
      sample.values.keys.findSome? fun sequenceId =>
        if sequenceId.isEmpty then some "aligned value sequence_id must not be empty"
        else if kMaxSequenceIdBytes < sequenceId.utf8ByteSize then
          some "sequence_id exceeds storage capacity"
        else (sample.values.find sequenceId).bind validateValue

/-- The samples from the first anchor of a check on. -/
def fromFirstSample (range : Option ConstraintCheckRange) (samples : List AlignedSample) :
    List AlignedSample :=
  match range with
  | none => samples
  | some range => atOrAbove AlignedSample.time range.startTime samples

/-- The check of a rule on aligned samples. -/
def checkAlignedRule (data : AlignedWindowData) (range : Option ConstraintCheckRange)
    (rule : ConstraintRule) : Except OperationResult RuleTally :=
  match validateConstraintRule rule with
  | .error error => .error (invalidArgument error)
  | .ok properties =>
      if properties.kind = .windowAggregate then
        .error (failedPrecondition
          "window aggregate rules require raw window statistics; they cannot be evaluated from aligned samples")
      else if data.samples.length ≤ properties.maximumSampleOffset then .ok {}
      else
        match checkAlignedAnchors rule properties.maximumSampleOffset
            (range.map ConstraintCheckRange.endTime) (fromFirstSample range data.samples) with
        | .error error => .error (invalidArgument error)
        | .ok tally => .ok tally

/-- `checkConstraints` over aligned samples. -/
def checkAligned (projectId : ProjectId) (rules : List ConstraintRule)
    (data : AlignedWindowData) (range : Option ConstraintCheckRange) : ConstraintCheckResult :=
  if rules.isEmpty then failure (invalidArgument "constraint rules must not be empty")
  else if data.windowEndTime < data.windowStartTime then
    failure (invalidArgument "aligned window start time must not be after window end time")
  else if data.samples.isEmpty then
    failure (invalidArgument "aligned window must contain at least one sample")
  else if !samplesIncreasing data.samples then
    failure (invalidArgument "aligned sample times must be strictly increasing")
  else
    match validateAlignedWindowData projectId data with
    | some error => failure (invalidArgument error)
    | none => finishCheck projectId (checkRules (checkAlignedRule data range) rules)

/-- The check of a rule on statistics. -/
def checkStatisticsRule (data : WindowStatisticsData) (rule : ConstraintRule) :
    Except OperationResult RuleTally :=
  match validateConstraintRule rule with
  | .error error => .error (invalidArgument error)
  | .ok properties =>
      if properties.kind ≠ .windowAggregate then
        .error (failedPrecondition "sample rules cannot be evaluated from window statistics")
      else
        match evaluateAggregateRule rule data with
        | .error error => .error (invalidArgument error)
        | .ok tally => .ok tally

/-- `checkConstraints` over window statistics. -/
def checkStatistics (projectId : ProjectId) (rules : List ConstraintRule)
    (data : WindowStatisticsData) : ConstraintCheckResult :=
  if rules.isEmpty then failure (invalidArgument "constraint rules must not be empty")
  else if data.windowEndTime < data.windowStartTime then
    failure (invalidArgument "window statistics start time must not be after end time")
  else finishCheck projectId (checkRules (checkStatisticsRule data) rules)

end ConstraintCheck
