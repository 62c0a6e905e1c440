import TimeSeriesEngine.ConstraintScan
import Mathlib.Data.List.TakeWhile

/-!
# The anchors of a rule

What a sample rule says about a series, position by position: its anchors are the
positions with room for the largest offset whose time lies in the range, an anchor is
pending where a mapped value is missing, and it is violated where the weighted sum of
the values leaves the bounds.

* `Series`, `anchors`, `RuleMeaning` — the reference;
* `checkAnchors_tallied`, `checkAlignedAnchors_tallied` — both loops visit the
  anchors and tally them as the reference says.
-/

namespace AnchorReference

open TseTypes KeyedTable OrderedSeries HotWindow ConstraintCheck HotIngest ConstraintScan

/-! ## The reference -/

/-- Positions with a time and the values of the sequences there. -/
structure Series (α : Type) where
  items : List α
  timeOf : α → Timestamp
  valueOf : α → SequenceId → Option TimeseriesValue

variable {α : Type}

namespace Series

/-- The time of the i-th item. -/
def timeAt (series : Series α) (i : Nat) : Timestamp :=
  ((series.items[i]?).map series.timeOf).getD 0

/-- The value a sequence has at the i-th item. -/
def valueAt (series : Series α) (i : Nat) (s : SequenceId) : Option TimeseriesValue :=
  (series.items[i]?).bind fun item => series.valueOf item s

/-- The same as a number, if it is one. -/
def numberAt (series : Series α) (i : Nat) (s : SequenceId) : Option ℚ :=
  (series.valueAt i s).bind numericValue

end Series

/-- The time lies in the checked range, if there is one. -/
def inRange (range : Option ConstraintCheckRange) (time : Timestamp) : Bool :=
  range.all fun range => decide (range.startTime ≤ time ∧ time ≤ range.endTime)

variable (series : Series α) (range : Option ConstraintCheckRange) (rule : ConstraintRule)

/-- The i-th item is followed by as many as the rule reads, and lies in the range. -/
def isAnchor (i : Nat) : Bool :=
  decide (i + maximumOffset rule < series.items.length) && inRange range (series.timeAt i)

/-- The positions the rule is checked at. -/
def anchors : List Nat := (List.range series.items.length).filter (isAnchor series range rule)

/-- A mapped value is missing. -/
def missing (i : Nat) : Bool :=
  rule.terms.any fun term =>
    (series.valueAt (i + term.sampleOffset) (mappedSequence rule term)).isNone

/-- No value the rule reads at the anchor is missing. -/
def present (i : Nat) : Bool := !missing series rule i

/-- The number a term reads at an anchor; zero where there is none. -/
def numberOf (i : Nat) (term : ConstraintTerm) : ℚ :=
  (series.numberAt (i + term.sampleOffset) (mappedSequence rule term)).getD 0

/-- The weighted sum at a position. -/
def sumAt (i : Nat) : ℚ :=
  (rule.terms.map fun term => number term.coefficient * numberOf series rule i term).sum

/-- Below the lower bound or above the upper one. -/
def outside (rule : ConstraintRule) (value : ℚ) : Bool :=
  rule.lowerBound.any (fun lower => decide (value < number lower)) ||
    rule.upperBound.any (fun upper => decide (number upper < value))

/-- The sum at the anchor is outside the bounds. -/
def outsideAt (i : Nat) : Bool := outside rule (sumAt series rule i)

/-- The anchors that can be evaluated. -/
def evaluatedAnchors : List Nat :=
  (anchors series range rule).filter (present series rule)

/-- The anchors that lack a value. -/
def pendingAnchors : List Nat :=
  (anchors series range rule).filter (missing series rule)

/-- The evaluated anchors with a sum outside the bounds. -/
def violatedAnchors : List Nat :=
  (evaluatedAnchors series range rule).filter (outsideAt series rule)

/-- What a violation reports of a term. -/
def termValueAt (i : Nat) (term : ConstraintTerm) : ConstraintTermValue where
  variableName := term.variableName
  sequenceId := mappedSequence rule term
  coefficient := term.coefficient
  sampleOffset := term.sampleOffset
  sampleTime := series.timeAt (i + term.sampleOffset)
  value := numberOf series rule i term
  aggregation := term.aggregation

/-- The violation at a position. -/
def violationAt (i : Nat) : ConstraintViolation where
  constraintId := rule.constraintId
  anchorTime := series.timeAt i
  lowerBound := rule.lowerBound
  upperBound := rule.upperBound
  evaluatedValue := sumAt series rule i
  termValues := rule.terms.map (termValueAt series rule i)
  orGroupId := rule.orGroupId

/-- What a tally says about the positions it went through. -/
structure Tallied (positions : List Nat) (tally : RuleTally) : Prop where
  numeric : ∀ i ∈ positions, missing series rule i = false → ∀ term ∈ rule.terms,
    ∃ value, series.numberAt (i + term.sampleOffset) (mappedSequence rule term) = some value
  evaluated : tally.evaluatedCount = (positions.filter (present series rule)).length
  pending : tally.pendingCount = (positions.filter (missing series rule)).length
  violations : tally.violations =
    ((positions.filter (present series rule)).filter (outsideAt series rule)).map
      (violationAt series rule)

/-! ## One anchor -/

/-- A value is outside the bounds when the service finds it so. -/
theorem outside_eq (rule : ConstraintRule) (value : ℚ) :
    outside rule value = !isWithinBounds value rule := by
  rw [outside, isWithinBounds]
  cases rule.lowerBound with
  | none =>
      cases rule.upperBound with
      | none => rfl
      | some upper => simp [← not_le]
  | some lower =>
      cases rule.upperBound with
      | none => simp [← not_le]
      | some upper => simp [← not_le]

/-- The weighted sum over the terms, from any start. -/
theorem weightedSum_map (terms : List ConstraintTerm) (value : ConstraintTerm → ConstraintTermValue)
    (start : ℚ) :
    (terms.map value).foldl (fun sum value => sum + number value.coefficient * value.value) start =
      start + (terms.map fun term =>
        number (value term).coefficient * (value term).value).sum := by
  induction terms generalizing start with
  | nil => exact (add_zero start).symm
  | cons term terms ih =>
      rw [List.map_cons, List.foldl_cons, ih, List.map_cons, List.sum_cons, add_assoc]

/-- The values of the terms, once each of them is known. -/
theorem resolveTerms_of_ok {rule : ConstraintRule}
    {resolve : ConstraintTerm → SequenceId → Except String ResolvedTermValue}
    {terms : List ConstraintTerm} {got : ConstraintTerm → ResolvedTermValue}
    (h : ∀ term ∈ terms, resolve term (mappedSequence rule term) = .ok (got term)) :
    resolveTerms rule resolve terms = .ok (terms.map fun term =>
      { variableName := term.variableName
        sequenceId := mappedSequence rule term
        coefficient := term.coefficient
        sampleOffset := term.sampleOffset
        sampleTime := (got term).sampleTime
        value := (got term).value
        aggregation := term.aggregation }) := by
  induction terms with
  | nil => rfl
  | cons term terms ih =>
      rw [resolveTerms, h term (List.mem_cons_self ..),
        ih fun other hother => h other (List.mem_cons_of_mem _ hother)]
      rfl

/-- Either every term can be read, or one of them gives an error. -/
theorem resolveTerms_cases (rule : ConstraintRule)
    (resolve : ConstraintTerm → SequenceId → Except String ResolvedTermValue)
    (terms : List ConstraintTerm) :
    ((∀ term ∈ terms, ∃ got, resolve term (mappedSequence rule term) = .ok got) ∧
        ∃ values, resolveTerms rule resolve terms = .ok values) ∨
      ∃ term ∈ terms, ∃ error, resolve term (mappedSequence rule term) = .error error ∧
        resolveTerms rule resolve terms = .error error := by
  induction terms with
  | nil => exact Or.inl ⟨fun _ h => absurd h List.not_mem_nil, [], rfl⟩
  | cons term terms ih =>
      cases hterm : resolve term (mappedSequence rule term) with
      | error error =>
          refine Or.inr ⟨term, List.mem_cons_self .., error, hterm, ?_⟩
          rw [resolveTerms, hterm]
      | ok got =>
          rcases ih with ⟨hall, values, hvalues⟩ | ⟨other, hother, error, herror, hrest⟩
          · refine Or.inl ⟨fun other hother => ?_, ?_⟩
            · rcases List.mem_cons.mp hother with rfl | hmem
              · exact ⟨got, hterm⟩
              · exact hall other hmem
            · rw [resolveTerms, hterm, hvalues]
              exact ⟨_, rfl⟩
          · refine Or.inr ⟨other, List.mem_cons_of_mem _ hother, error, herror, ?_⟩
            rw [resolveTerms, hterm, hrest]

/-- How a loop reads the term of an anchor: `window` is the series from the anchor on. -/
structure Reads (resolve : List α → ConstraintTerm → SequenceId → Except String ResolvedTermValue) :
    Prop where
  value : ∀ window term s got, resolve window term s = .ok got →
    ∃ item, window[term.sampleOffset]? = some item ∧ got.sampleTime = series.timeOf item ∧
      (series.valueOf item s).bind numericValue = some got.value

variable {series range rule}

theorem getElem?_window {k : Nat} {window : List α} (h : window = series.items.drop k) (offset : Nat) :
    window[offset]? = series.items[k + offset]? := by
  rw [h, List.getElem?_drop]

/-- An anchor whose terms are all read. -/
theorem evaluated_anchor
    {resolve : List α → ConstraintTerm → SequenceId → Except String ResolvedTermValue}
    (hreads : Reads series resolve) {k : Nat} {anchor : α} {rest : List α}
    (hwindow : anchor :: rest = series.items.drop k) {found : Option ConstraintViolation}
    (h : evaluateRuleAt rule (series.timeOf anchor) (resolve (anchor :: rest)) = .ok found) :
    missing series rule k = false ∧
      (∀ term ∈ rule.terms, ∃ value,
        series.numberAt (k + term.sampleOffset) (mappedSequence rule term) = some value) ∧
      found = if outsideAt series rule k then some (violationAt series rule k) else none := by
  have htime : series.timeOf anchor = series.timeAt k := by
    have hhead := getElem?_window hwindow 0
    rw [List.getElem?_cons_zero, Nat.add_zero] at hhead
    rw [Series.timeAt, ← hhead]
    rfl
  -- what one term reads
  have hterm : ∀ term got, resolve (anchor :: rest) term (mappedSequence rule term) = .ok got →
      got = ⟨series.timeAt (k + term.sampleOffset), numberOf series rule k term⟩ ∧
        (∃ value, series.numberAt (k + term.sampleOffset) (mappedSequence rule term) = some value) ∧
        (series.valueAt (k + term.sampleOffset) (mappedSequence rule term)).isNone = false := by
    intro term got hgot
    obtain ⟨item, hitem, hsample, hnumber⟩ := hreads.value _ _ _ _ hgot
    rw [getElem?_window hwindow] at hitem
    have hvalue : series.valueAt (k + term.sampleOffset) (mappedSequence rule term) =
        series.valueOf item (mappedSequence rule term) := by
      rw [Series.valueAt, hitem]
      rfl
    have hnumberAt : series.numberAt (k + term.sampleOffset) (mappedSequence rule term) =
        some got.value := by
      rw [Series.numberAt, hvalue, hnumber]
    refine ⟨?_, ⟨_, hnumberAt⟩, ?_⟩
    · cases got with
      | mk sampleTime value =>
          have hat : series.timeAt (k + term.sampleOffset) = sampleTime := by
            rw [Series.timeAt, hitem]
            exact hsample.symm
          rw [numberOf, hnumberAt, hat]
          rfl
    · rw [hvalue]
      cases hnone : series.valueOf item (mappedSequence rule term) with
      | none =>
          rw [hnone] at hnumber
          cases hnumber
      | some value => rfl
  rcases resolveTerms_cases rule (resolve (anchor :: rest)) rule.terms with
    ⟨hall, -⟩ | ⟨term, -, error, -, herror⟩
  · have hgot : ∀ term ∈ rule.terms, resolve (anchor :: rest) term (mappedSequence rule term) =
        .ok ⟨series.timeAt (k + term.sampleOffset), numberOf series rule k term⟩ := by
      intro term hmem
      obtain ⟨got, hgot⟩ := hall term hmem
      rw [hgot, (hterm term got hgot).1]
    refine ⟨List.any_eq_false.mpr fun term hmem => ?_, fun term hmem => ?_, ?_⟩
    · rw [Bool.not_eq_true]
      exact (hterm term _ (hgot term hmem)).2.2
    · exact (hterm term _ (hgot term hmem)).2.1
    · rw [evaluateRuleAt, resolveTerms_of_ok hgot] at h
      have hsum : weightedSum (rule.terms.map (termValueAt series rule k)) = sumAt series rule k := by
        rw [weightedSum, weightedSum_map, zero_add]
        rfl
      have hfound : (if isWithinBounds (weightedSum (rule.terms.map (termValueAt series rule k))) rule
          then Except.ok none else Except.ok (some
            { constraintId := rule.constraintId
              anchorTime := series.timeOf anchor
              lowerBound := rule.lowerBound
              upperBound := rule.upperBound
              evaluatedValue := weightedSum (rule.terms.map (termValueAt series rule k))
              termValues := rule.terms.map (termValueAt series rule k)
              orGroupId := rule.orGroupId })) = (Except.ok found : Except String _) := h
      rw [hsum, htime] at hfound
      rw [outsideAt, outside_eq]
      cases hwithin : isWithinBounds (sumAt series rule k) rule with
      | true =>
          rw [hwithin] at hfound
          exact (Except.ok.inj hfound).symm
      | false =>
          rw [hwithin] at hfound
          exact (Except.ok.inj hfound).symm
  · rw [evaluateRuleAt, herror] at h
    cases h

theorem tallied_nil : Tallied series rule [] {} where
  numeric := fun _ h => absurd h List.not_mem_nil
  evaluated := rfl
  pending := rfl
  violations := rfl

/-- An anchor whose terms are all there is evaluated. -/
theorem Tallied.evaluate {positions : List Nat} {tally : RuleTally}
    (h : Tallied series rule positions tally) {k : Nat} (hpresent : missing series rule k = false)
    (hnumeric : ∀ term ∈ rule.terms, ∃ value,
      series.numberAt (k + term.sampleOffset) (mappedSequence rule term) = some value) :
    Tallied series rule (k :: positions) (tally.evaluated
      (if outsideAt series rule k then some (violationAt series rule k) else none)) := by
  have hkept : present series rule k = true := by rw [present, hpresent]; rfl
  have hskipped : ¬ missing series rule k = true := by rw [hpresent]; exact Bool.false_ne_true
  refine ⟨fun i hi hfull => ?_, ?_, ?_, ?_⟩
  · rcases List.mem_cons.mp hi with rfl | hlater
    · exact hnumeric
    · exact h.numeric i hlater hfull
  · rw [List.filter_cons_of_pos hkept, List.length_cons, ← h.evaluated]
    rfl
  · rw [List.filter_cons_of_neg hskipped, ← h.pending]
    rfl
  · rw [List.filter_cons_of_pos hkept]
    show (if outsideAt series rule k then some (violationAt series rule k) else none).toList ++
      tally.violations = _
    rw [h.violations]
    by_cases hout : outsideAt series rule k = true
    · rw [if_pos hout, List.filter_cons_of_pos hout]
      rfl
    · rw [if_neg hout, List.filter_cons_of_neg hout]
      rfl

/-- An anchor that misses a point is counted as pending. -/
theorem Tallied.postpone {positions : List Nat} {tally : RuleTally}
    (h : Tallied series rule positions tally) {k : Nat} (hmissing : missing series rule k = true) :
    Tallied series rule (k :: positions) { tally with pendingCount := tally.pendingCount + 1 } := by
  have hskipped : ¬ present series rule k = true := by
    rw [present, hmissing]
    exact Bool.false_ne_true
  refine ⟨fun i hi hfull => ?_, ?_, ?_, ?_⟩
  · rcases List.mem_cons.mp hi with rfl | hlater
    · rw [hmissing] at hfull
      cases hfull
    · exact h.numeric i hlater hfull
  · rw [List.filter_cons_of_neg hskipped]
    exact h.evaluated
  · rw [List.filter_cons_of_pos hmissing, List.length_cons, ← h.pending]
  · rw [List.filter_cons_of_neg hskipped]
    exact h.violations

/-! ## The loops -/

/-- The positions a loop visits from the position `k` on. -/
def visited (timeOf : α → Timestamp) (m : Nat) (finish : Option Timestamp) : Nat → List α → List Nat
  | _, [] => []
  | k, item :: rest =>
      if rest.length < m then []
      else if finish.any (fun finish => decide (finish < timeOf item)) then []
      else k :: visited timeOf m finish (k + 1) rest

theorem drop_succ_of_drop {items rest : List α} {item : α} {k : Nat}
    (h : item :: rest = items.drop k) : rest = items.drop (k + 1) := by
  rw [← List.drop_drop, ← h]
  rfl

/-- The points of a sequence; a point has a value. -/
def pointSeries (points : List RawTimeseriesPoint) : Series RawTimeseriesPoint where
  items := points
  timeOf := RawTimeseriesPoint.time
  valueOf := fun point _ => some point.value

/-- Aligned samples; a sample has the values of some sequences. -/
def sampleSeries (samples : List AlignedSample) : Series AlignedSample where
  items := samples
  timeOf := AlignedSample.time
  valueOf := fun sample s => sample.values.find s

/-- Terms are read off the points of a sequence. -/
theorem reads_points (points : List RawTimeseriesPoint) : Reads (pointSeries points) resolveSample := by
  refine ⟨fun window term s got h => ?_⟩
  rw [resolveSample] at h
  cases hitem : window[term.sampleOffset]? with
  | none =>
      rw [hitem] at h
      cases h
  | some point =>
      rw [hitem] at h
      simp only at h
      split at h
      · cases h
      · cases hnumber : numericValue point.value with
        | none =>
            rw [hnumber] at h
            cases h
        | some value =>
            rw [hnumber] at h
            obtain rfl := Except.ok.inj h
            exact ⟨point, rfl, rfl, hnumber⟩

/-- Terms are read off the samples of an alignment. -/
theorem reads_samples (samples : List AlignedSample) : Reads (sampleSeries samples) resolveAligned := by
  refine ⟨fun window term s got h => ?_⟩
  rw [resolveAligned] at h
  cases hitem : window[term.sampleOffset]? with
  | none =>
      rw [hitem] at h
      cases h
  | some sample =>
      rw [hitem] at h
      simp only at h
      cases hvalue : sample.values.find s with
      | none =>
          rw [hvalue] at h
          cases h
      | some value =>
          rw [hvalue] at h
          simp only at h
          cases hnumber : numericValue value with
          | none =>
              rw [hnumber] at h
              cases h
          | some x =>
              rw [hnumber] at h
              obtain rfl := Except.ok.inj h
              refine ⟨sample, rfl, rfl, ?_⟩
              show (sample.values.find s).bind numericValue = some x
              rw [hvalue]
              exact hnumber

/-- The loop over the points tallies the anchors it visits. -/
theorem checkAnchors_tallied {points : List RawTimeseriesPoint} {m : Nat} {finish : Option Timestamp}
    {k : Nat} {window : List RawTimeseriesPoint} (hwindow : window = points.drop k)
    {tally : RuleTally} (h : checkAnchors rule m finish window = .ok tally) :
    Tallied (pointSeries points) rule (visited RawTimeseriesPoint.time m finish k window) tally := by
  induction window generalizing k tally with
  | nil =>
      rw [checkAnchors] at h
      rw [← Except.ok.inj h]
      exact tallied_nil
  | cons anchor rest ih =>
      rw [checkAnchors] at h
      rw [visited]
      split at h
      · rename_i hshort
        rw [if_pos hshort, ← Except.ok.inj h]
        exact tallied_nil
      rename_i hlong
      rw [if_neg hlong]
      split at h
      · rename_i hbehind
        rw [if_pos hbehind, ← Except.ok.inj h]
        exact tallied_nil
      rename_i hbefore
      rw [if_neg hbefore]
      -- no error of an anchor is passed over here
      cases hfound : evaluateRuleAt rule anchor.time (resolveSample (anchor :: rest)) with
      | error error =>
          rw [hfound] at h
          cases h
      | ok found =>
          cases hrest : checkAnchors rule m finish rest with
          | error error =>
              rw [hfound, hrest] at h
              cases h
          | ok tally' =>
              rw [hfound, hrest] at h
              obtain ⟨hpresent, hnumeric, hviolation⟩ :=
                evaluated_anchor (reads_points points) hwindow hfound
              rw [← Except.ok.inj h, hviolation]
              exact (ih (drop_succ_of_drop hwindow) hrest).evaluate hpresent hnumeric

/-- The error of a sample without a mapped value is about such a value. -/
theorem missing_of_error {samples : List AlignedSample} {k : Nat} {anchor : AlignedSample}
    {rest : List AlignedSample} (hwindow : anchor :: rest = samples.drop k) {error : String}
    (h : evaluateRuleAt rule anchor.time (resolveAligned (anchor :: rest)) = .error error)
    (hmissing : isMissingMappedSequenceError error = true) :
    missing (sampleSeries samples) rule k = true := by
  rcases resolveTerms_cases rule (resolveAligned (anchor :: rest)) rule.terms with
    ⟨-, values, hvalues⟩ | ⟨term, hterm, other, hother, herror⟩
  · rw [evaluateRuleAt, hvalues] at h
    simp only at h
    split at h
    · cases h
    · cases h
  · rw [evaluateRuleAt, herror] at h
    obtain rfl := Except.error.inj h
    refine List.any_eq_true.mpr ⟨term, hterm, ?_⟩
    -- of the texts of `resolveAligned` only one says that the sequence is missing
    rw [resolveAligned] at hother
    cases hitem : (anchor :: rest)[term.sampleOffset]? with
    | none =>
        rw [hitem] at hother
        rw [← Except.error.inj hother] at hmissing
        exact absurd hmissing (by decide)
    | some sample =>
        rw [hitem] at hother
        simp only at hother
        rw [@getElem?_window _ (sampleSeries samples) _ _ hwindow] at hitem
        rw [Series.valueAt, hitem]
        show (sample.values.find (mappedSequence rule term)).isNone = true
        cases hvalue : sample.values.find (mappedSequence rule term) with
        | none => rfl
        | some value =>
            rw [hvalue] at hother
            simp only at hother
            cases hnumber : numericValue value with
            | none =>
                rw [hnumber] at hother
                rw [← Except.error.inj hother] at hmissing
                exact absurd hmissing (by decide)
            | some x =>
                rw [hnumber] at hother
                cases hother

/-- The loop over the samples tallies the anchors it visits. -/
theorem checkAlignedAnchors_tallied {samples : List AlignedSample} {m : Nat}
    {finish : Option Timestamp} {k : Nat} {window : List AlignedSample}
    (hwindow : window = samples.drop k) {tally : RuleTally}
    (h : checkAlignedAnchors rule m finish window = .ok tally) :
    Tallied (sampleSeries samples) rule (visited AlignedSample.time m finish k window) tally := by
  induction window generalizing k tally with
  | nil =>
      rw [checkAlignedAnchors] at h
      rw [← Except.ok.inj h]
      exact tallied_nil
  | cons anchor rest ih =>
      rw [checkAlignedAnchors] at h
      rw [visited]
      split at h
      · rename_i hshort
        rw [if_pos hshort, ← Except.ok.inj h]
        exact tallied_nil
      rename_i hlong
      rw [if_neg hlong]
      split at h
      · rename_i hbehind
        rw [if_pos hbehind, ← Except.ok.inj h]
        exact tallied_nil
      rename_i hbefore
      rw [if_neg hbefore]
      have hnext := drop_succ_of_drop hwindow
      cases hfound : evaluateRuleAt rule anchor.time (resolveAligned (anchor :: rest)) with
      | error error =>
          rw [hfound] at h
          simp only at h
          -- a missing sequence postpones the anchor, any other error ends the check
          by_cases hmissing : isMissingMappedSequenceError error = true
          · rw [if_pos hmissing] at h
            cases hrest : checkAlignedAnchors rule m finish rest with
            | error other =>
                rw [hrest] at h
                cases h
            | ok tally' =>
                rw [hrest] at h
                rw [← Except.ok.inj h]
                exact (ih hnext hrest).postpone (missing_of_error hwindow hfound hmissing)
          · rw [if_neg hmissing] at h
            cases h
      | ok found =>
          cases hrest : checkAlignedAnchors rule m finish rest with
          | error error =>
              rw [hfound, hrest] at h
              cases h
          | ok tally' =>
              rw [hfound, hrest] at h
              obtain ⟨hpresent, hnumeric, hviolation⟩ :=
                evaluated_anchor (reads_samples samples) hwindow hfound
              rw [← Except.ok.inj h, hviolation]
              exact (ih hnext hrest).evaluate hpresent hnumeric

/-! ## The visited positions -/

theorem timeAt_window {k i : Nat} {window : List α} (hwindow : window = series.items.drop k)
    {item : α} (h : window[i]? = some item) : series.timeAt (k + i) = series.timeOf item := by
  rw [getElem?_window hwindow] at h
  rw [Series.timeAt, h]
  rfl

/-- A position the loop has room for, not behind the end of the range. -/
def reached (series : Series α) (m : Nat) (finish : Option Timestamp) (i : Nat) : Bool :=
  decide (i + m < series.items.length) &&
    finish.all fun finish => decide (series.timeAt i ≤ finish)

/-- The anchors visited are those up to the end of the range. -/
theorem visited_eq (horder : Ordered series.timeOf series.items) (m : Nat) (finish : Option Timestamp)
    {k : Nat} {window : List α} (hwindow : window = series.items.drop k) :
    visited series.timeOf m finish k window =
      (List.range' k window.length).filter (reached series m finish) := by
  induction window generalizing k with
  | nil => rfl
  | cons item rest ih =>
      have hlength : (item :: rest).length = series.items.length - k := by
        rw [hwindow, List.length_drop]
      rw [List.length_cons] at hlength ⊢
      have hnone : (∀ i, k ≤ i → i < k + (rest.length + 1) → reached series m finish i = false) →
          [] = (List.range' k (rest.length + 1)).filter (reached series m finish) := by
        intro hall
        refine (List.filter_eq_nil_iff.mpr fun i hi => ?_).symm
        obtain ⟨hle, hlt⟩ := List.mem_range'_1.mp hi
        exact Bool.not_eq_true _ ▸ hall i hle hlt
      rw [visited]
      by_cases hshort : rest.length < m
      · rw [if_pos hshort]
        refine hnone fun i hle hlt => ?_
        rw [reached, decide_eq_false (by omega), Bool.false_and]
      rw [if_neg hshort]
      have htime : series.timeAt k = series.timeOf item :=
        timeAt_window hwindow (List.getElem?_cons_zero (l := rest))
      by_cases hbehind : finish.any (fun finish => decide (finish < series.timeOf item)) = true
      · rw [if_pos hbehind]
        refine hnone fun i hle hlt => ?_
        -- no later position is earlier
        have hsorted : Ordered series.timeOf (item :: rest) := by
          rw [hwindow]
          exact horder.sublist (List.drop_sublist k _)
        have hlater : series.timeOf item ≤ series.timeAt i := by
          obtain ⟨j, rfl⟩ := Nat.exists_eq_add_of_le hle
          obtain ⟨other, hother⟩ : ∃ other, (item :: rest)[j]? = some other :=
            ⟨_, List.getElem?_eq_getElem (show j < (item :: rest).length by
              rw [List.length_cons]; omega)⟩
          rw [timeAt_window hwindow hother]
          rcases List.mem_cons.mp (List.mem_of_getElem? hother) with rfl | hmem
          · exact le_refl _
          · exact (List.pairwise_cons.mp hsorted).1 other hmem
        cases finish with
        | none => cases hbehind
        | some finish =>
            have hlate : finish < series.timeOf item := of_decide_eq_true hbehind
            rw [reached, Option.all_some, decide_eq_false (not_le.mpr (lt_of_lt_of_le hlate hlater)),
              Bool.and_false]
      · rw [if_neg hbehind, ih (drop_succ_of_drop hwindow)]
        have hreached : reached series m finish k = true := by
          rw [reached, decide_eq_true (by omega), Bool.true_and, htime]
          cases finish with
          | none => rfl
          | some finish =>
              have hearly : ¬ finish < series.timeOf item := fun hlate => hbehind (decide_eq_true hlate)
              exact decide_eq_true (not_lt.mp hearly)
        rw [List.range'_succ, List.filter_cons_of_pos hreached]

/-- The series from the first anchor on. -/
def fromStart (series : Series α) (range : Option ConstraintCheckRange) : List α :=
  match range with
  | none => series.items
  | some range => atOrAbove series.timeOf range.startTime series.items

/-- The loop visits the anchors. -/
theorem visited_anchors (horder : Ordered series.timeOf series.items)
    (range : Option ConstraintCheckRange) (rule : ConstraintRule) :
    ∃ k, fromStart series range = series.items.drop k ∧
      visited series.timeOf (maximumOffset rule) (range.map ConstraintCheckRange.endTime) k
        (fromStart series range) = anchors series range rule := by
  cases range with
  | none =>
      refine ⟨0, rfl, ?_⟩
      rw [visited_eq horder _ _ (show fromStart series none = series.items.drop 0 from rfl), anchors,
        List.range_eq_range']
      rfl
  | some range =>
      have hdrop := drop_length_below series.timeOf range.startTime series.items
      have hk : (below series.timeOf range.startTime series.items).length ≤ series.items.length :=
        (List.takeWhile_sublist _).length_le
      refine ⟨(below series.timeOf range.startTime series.items).length, hdrop.symm, ?_⟩
      have hwindow : fromStart series (some range) = series.items.drop
          (below series.timeOf range.startTime series.items).length := hdrop.symm
      rw [visited_eq horder _ _ hwindow, anchors, List.range_eq_range', hwindow, List.length_drop]
      -- what is dropped in front is in front of the range
      have hfront : ∀ i, i < (below series.timeOf range.startTime series.items).length →
          ¬ isAnchor series (some range) rule i = true := by
        intro i hi hanchor
        obtain ⟨item, hitem⟩ : ∃ item,
            (below series.timeOf range.startTime series.items)[i]? = some item :=
          ⟨_, List.getElem?_eq_getElem hi⟩
        have hmem : item ∈ series.items.takeWhile
            (fun item => decide (series.timeOf item < range.startTime)) :=
          List.mem_of_getElem? hitem
        have hbefore := List.mem_takeWhile_imp hmem
        have hearly : series.timeOf item < range.startTime := of_decide_eq_true hbefore
        have hat : series.items[i]? = some item := by
          rw [← below_append_atOrAbove series.timeOf range.startTime series.items,
            List.getElem?_append_left hi, hitem]
        have htime : series.timeAt i = series.timeOf item := by
          rw [Series.timeAt, hat]
          rfl
        rw [isAnchor, Bool.and_eq_true, htime] at hanchor
        exact absurd (of_decide_eq_true hanchor.2).1 (not_le.mpr hearly)
      -- the rest is not, so that only its end is left to test
      have hback : ∀ i, (below series.timeOf range.startTime series.items).length ≤ i →
          i < series.items.length →
          reached series (maximumOffset rule) (some range.endTime) i =
            isAnchor series (some range) rule i := by
        intro i hle hlt
        obtain ⟨j, rfl⟩ := Nat.exists_eq_add_of_le hle
        obtain ⟨item, hitem⟩ : ∃ item,
            (atOrAbove series.timeOf range.startTime series.items)[j]? = some item := by
          refine ⟨_, List.getElem?_eq_getElem ?_⟩
          rw [← hdrop, List.length_drop]
          omega
        have hmem := List.mem_of_getElem? hitem
        rw [horder.atOrAbove_eq series.timeOf] at hmem
        have hlate : range.startTime ≤ series.timeOf item := of_decide_eq_true (List.mem_filter.mp hmem).2
        have htime := timeAt_window hdrop.symm hitem
        rw [reached, isAnchor, htime, inRange, Option.all_some, Option.all_some]
        refine congrArg _ (decide_eq_decide.mpr ?_)
        exact ⟨fun h => ⟨hlate, h⟩, fun h => h.2⟩
      have hsplit : List.range' 0 series.items.length =
          List.range' 0 (below series.timeOf range.startTime series.items).length ++
            List.range' (below series.timeOf range.startTime series.items).length
              (series.items.length - (below series.timeOf range.startTime series.items).length) := by
        have happend := @List.range'_append_1 0
          (below series.timeOf range.startTime series.items).length
          (series.items.length - (below series.timeOf range.startTime series.items).length)
        rw [Nat.zero_add, Nat.add_sub_cancel' hk] at happend
        exact happend.symm
      rw [hsplit, List.filter_append, List.filter_eq_nil_iff.mpr fun i hi =>
        hfront i (by have := List.mem_range'_1.mp hi; omega), List.nil_append]
      refine List.filter_congr fun i hi => ?_
      obtain ⟨hle, hlt⟩ := List.mem_range'_1.mp hi
      exact hback i hle (by omega)

end AnchorReference
