import TimeSeriesEngine.Library.PiecewiseLinear
import TimeSeriesEngine.DerivedSeries

/-!
# What a formula derives

The evaluation loop walks the candidate times with one forward cursor per
source.  In closed form there are no cursors: at each time every source has the
value of the line through its points, and the formula combines them.

* `formulaValue` — the formula over given source values;
* `Derives` — the derived series as a relation between times and values;
* `computeFrom_points` — the item of a formula holds what its sources derive;
* `Derives.slice` — slices of the sources derive the same wherever they span.
-/

namespace FormulaValue

open TseTypes KeyedTable OrderedSeries PiecewiseLinear HotWindow WindowUpdate Registry
open UpdateRange DerivedSeries

/-! ## Formulas without cursors -/

/-- What an expression comes to, where some sequences have values. -/
def expressionValue (values : SequenceId → Option ℚ) : DerivedExpression → EvaluationResult
  | .sequence sequenceId =>
      match values sequenceId with
      | some value => .value value
      | none => .missing
  | .constant value => .value (number value)
  | .binary operation left right =>
      if left = .missing ∨ right = .missing then .error "derived binary expression is incomplete"
      else combineValues operation (expressionValue values left) (expressionValue values right)
  | .missing => .error "unknown derived expression node"

/-- The sum of the terms, up to the first that has no value. -/
def termsValue (values : SequenceId → Option ℚ) : List DerivedLinearTerm → ℚ → EvaluationResult
  | [], sum => .value sum
  | term :: terms, sum =>
      match values term.sequenceId with
      | none => .missing
      | some value =>
          termsValue values terms (sum + number term.coefficient * value)

/-- What a formula comes to. -/
def formulaValue (values : SequenceId → Option ℚ) : DerivedFormula → EvaluationResult
  | .linear combination =>
      termsValue values combination.terms (number combination.bias)
  | .expression expression => expressionValue values expression

theorem combineValues_value {operation : DerivedOperator} {left right : EvaluationResult} {v : ℚ}
    (h : combineValues operation left right = .value v) :
    (∃ l, left = .value l) ∧ ∃ r, right = .value r := by
  cases left with
  | error message => cases h
  | missing => cases right <;> cases h
  | value l =>
      cases right with
      | error message => cases h
      | missing => cases h
      | value r => exact ⟨⟨l, rfl⟩, ⟨r, rfl⟩⟩

/-- Collecting sources keeps those collected. -/
theorem mem_collectSources {s : SequenceId} (expression : DerivedExpression)
    {seen : List SequenceId} (h : s ∈ seen) : s ∈ collectSources expression seen := by
  induction expression generalizing seen with
  | sequence sequenceId => exact (mem_pushUnique _ _ _).mpr (Or.inr h)
  | constant value => exact h
  | binary operation left right ihl ihr => exact ihr (ihl h)
  | missing => exact h

/-- Where an expression has a value, its sources have one. -/
theorem expressionValue_defined {values : SequenceId → Option ℚ} {expression : DerivedExpression}
    {v : ℚ} (h : expressionValue values expression = .value v) {s : SequenceId}
    {seen : List SequenceId} (hs : s ∈ collectSources expression seen) :
    s ∈ seen ∨ (values s).isSome = true := by
  induction expression generalizing seen v with
  | sequence sequenceId =>
      rcases (mem_pushUnique _ _ _).mp hs with rfl | hold
      · right
        unfold expressionValue at h
        cases hv : values s with
        | none =>
            rw [hv] at h
            cases h
        | some value => rfl
      · exact Or.inl hold
  | constant value => exact Or.inl hs
  | binary operation left right ihl ihr =>
      unfold expressionValue at h
      split at h
      · cases h
      · obtain ⟨⟨l, hl⟩, ⟨r, hr⟩⟩ := combineValues_value h
        rcases ihr hr hs with hleft | hsome
        · exact ihl hl hleft
        · exact Or.inr hsome
  | missing => exact Or.inl hs

/-- Where terms have a value, their sources have one. -/
theorem termsValue_defined {values : SequenceId → Option ℚ} {terms : List DerivedLinearTerm}
    {sum v : ℚ} (h : termsValue values terms sum = .value v) :
    ∀ term ∈ terms, (values term.sequenceId).isSome = true := by
  induction terms generalizing sum with
  | nil =>
      intro term hterm
      cases hterm
  | cons first rest ih =>
      intro term hterm
      unfold termsValue at h
      cases hv : values first.sequenceId with
      | none =>
          rw [hv] at h
          cases h
      | some value =>
          rw [hv] at h
          rcases List.mem_cons.mp hterm with rfl | hrest
          · rw [hv]
            rfl
          · exact ih h term hrest

/-- The sources of a linear combination. -/
theorem mem_sourcesFor_linear {config : RuntimeDerivedSeriesConfig}
    {combination : DerivedLinearCombination} (hf : config.formula = .linear combination)
    (s : SequenceId) :
    s ∈ sourcesFor config ↔ ∃ term ∈ combination.terms, term.sequenceId = s := by
  unfold sourcesFor
  rw [hf]
  have hmap : combination.terms.foldl (fun seen term => pushUnique term.sequenceId seen) [] =
      (combination.terms.map DerivedLinearTerm.sequenceId).foldl
        (fun seen id => pushUnique id seen) [] := by rw [List.foldl_map]
  show s ∈ combination.terms.foldl _ _ ↔ _
  rw [hmap, mem_foldl_pushUnique, List.mem_map]
  simp

/-- **A formula with a value has a value of every source.** -/
theorem formulaValue_defined {values : SequenceId → Option ℚ}
    {config : RuntimeDerivedSeriesConfig} {v : ℚ}
    (h : formulaValue values config.formula = .value v) {s : SequenceId}
    (hs : s ∈ sourcesFor config) : (values s).isSome = true := by
  cases hf : config.formula with
  | linear combination =>
      rw [hf] at h
      obtain ⟨term, hterm, rfl⟩ := (mem_sourcesFor_linear hf s).mp hs
      exact termsValue_defined h term hterm
  | expression expression =>
      rw [hf] at h
      unfold sourcesFor at hs
      rw [hf] at hs
      rcases expressionValue_defined h hs with hnil | hsome
      · cases hnil
      · exact hsome

/-- An expression reads its sources only. -/
theorem expressionValue_congr {values values' : SequenceId → Option ℚ}
    {expression : DerivedExpression} {seen : List SequenceId}
    (h : ∀ s ∈ collectSources expression seen, values s = values' s) :
    expressionValue values expression = expressionValue values' expression := by
  induction expression generalizing seen with
  | sequence sequenceId =>
      unfold expressionValue
      rw [h sequenceId ((mem_pushUnique _ _ _).mpr (Or.inl rfl))]
  | constant value => rfl
  | binary operation left right ihl ihr =>
      unfold expressionValue
      rw [ihl fun s hs => h s (mem_collectSources right hs), ihr h]
  | missing => rfl

/-- Terms read their sources only. -/
theorem termsValue_congr {values values' : SequenceId → Option ℚ} {terms : List DerivedLinearTerm}
    (h : ∀ term ∈ terms, values term.sequenceId = values' term.sequenceId) (sum : ℚ) :
    termsValue values terms sum = termsValue values' terms sum := by
  induction terms generalizing sum with
  | nil => rfl
  | cons first rest ih =>
      unfold termsValue
      rw [h first (List.mem_cons_self ..)]
      cases values' first.sequenceId with
      | none => rfl
      | some value => exact ih (fun term hterm => h term (List.mem_cons_of_mem _ hterm)) _

/-- A formula reads its sources only. -/
theorem formulaValue_congr {values values' : SequenceId → Option ℚ}
    {config : RuntimeDerivedSeriesConfig} (h : ∀ s ∈ sourcesFor config, values s = values' s) :
    formulaValue values config.formula = formulaValue values' config.formula := by
  cases hf : config.formula with
  | linear combination =>
      exact termsValue_congr (fun term hterm =>
        h _ ((mem_sourcesFor_linear hf _).mpr ⟨term, hterm, rfl⟩)) _
  | expression expression =>
      have hread : ∀ s ∈ collectSources expression [], values s = values' s := by
        intro s hs
        refine h s ?_
        unfold sourcesFor
        rw [hf]
        exact hs
      exact expressionValue_congr hread

/-! ## Cursors -/

/-- What the sources hold at a time. -/
def valuesOf (sources : SequenceId → Option NumericSource) (t : Timestamp) (s : SequenceId) :
    Option ℚ :=
  (sources s).bind fun source => linearAt NumericPoint.time NumericPoint.value source.points t

/-- Continuous series in time order. -/
def Continuous (sources : SequenceId → Option NumericSource) : Prop :=
  ∀ s source, sources s = some source →
    source.kind = .continuous ∧ Ascending NumericPoint.time source.points

/-- No cursor has passed the time. -/
structure Behind (sources : SequenceId → Option NumericSource) (t : Timestamp)
    (cursors : NumericCursorMap) : Prop where
  source : ∀ s, (cursors s).map NumericCursor.source = sources s
  index : ∀ s cursor, cursors s = some cursor →
    cursor.rightIndex ≤ (below NumericPoint.time t cursor.source.points).length

variable {sources : SequenceId → Option NumericSource} {cursors : NumericCursorMap}
  {t : Timestamp}

theorem Behind.mono (hc : Continuous sources) (h : Behind sources t cursors) {t' : Timestamp}
    (hle : t ≤ t') : Behind sources t' cursors := by
  refine ⟨h.source, fun s cursor hs => le_trans (h.index s cursor hs) ?_⟩
  have hsource := h.source s
  rw [hs] at hsource
  exact length_below_mono _ (hc s _ hsource.symm).2 hle

/-- A cursor that stands at the time reads the line. -/
theorem readAt_linear {source : NumericSource} (hkind : source.kind = .continuous)
    (hasc : Ascending NumericPoint.time source.points) (t : Timestamp) :
    readAt source (below NumericPoint.time t source.points).length t =
      linearAt NumericPoint.time NumericPoint.value source.points t := by
  simp only [readAt, linearAt, getElem?_length_below, getElem?_before_below, hkind, if_true]
  cases hhead : (atOrAbove NumericPoint.time t source.points).head? with
  | none => rfl
  | some right =>
      simp only
      by_cases heq : right.time = t
      · rw [if_pos heq, if_pos heq]
      · rw [if_neg heq, if_neg heq]
        cases hlast : (below NumericPoint.time t source.points).getLast? with
        | none => rfl
        | some left =>
            have hlt : left.time < t := ((hasc.mem_below _).mp (List.mem_of_getLast? hlast)).2
            have hge : t ≤ right.time := (head_atOrAbove hasc hhead).2
            have hpos : ¬ right.time - left.time ≤ 0 :=
              not_le.mpr (Int.sub_pos_of_lt (lt_of_lt_of_le hlt hge))
            simp only [Option.bind_some, Option.map_some, if_neg hpos]
            rfl

/-- A cursor gives the value of its source at the time, and stays behind it. -/
theorem valueAt_spec (hc : Continuous sources) (h : Behind sources t cursors) (s : SequenceId) :
    (valueAt s t cursors).2 = valuesOf sources t s ∧
      Behind sources t (valueAt s t cursors).1 := by
  have hsource := h.source s
  unfold valueAt valuesOf
  cases hs : cursors s with
  | none =>
      rw [hs] at hsource
      rw [← hsource]
      exact ⟨rfl, h⟩
  | some cursor =>
      rw [hs] at hsource
      obtain ⟨hkind, hasc⟩ := hc s _ hsource.symm
      -- the cursor moves on to the first point at or after `t`
      have hindex : (advanceCursor cursor t).rightIndex =
          (below NumericPoint.time t cursor.source.points).length :=
        length_below_drop _ (h.index s cursor hs)
      rw [← hsource]
      refine ⟨?_, fun s' => ?_, fun s' cursor' hs' => ?_⟩
      · show readAt cursor.source (advanceCursor cursor t).rightIndex t = _
        rw [hindex, readAt_linear hkind hasc]
        rfl
      · show (Function.update cursors s _ s').map _ = _
        by_cases he : s' = s
        · rw [he, Function.update_self, ← hsource]
          rfl
        · rw [Function.update_of_ne he, h.source]
      · have hs'' : Function.update cursors s (some (advanceCursor cursor t)) s' = some cursor' :=
          hs'
        by_cases he : s' = s
        · rw [he, Function.update_self] at hs''
          rw [← Option.some.inj hs'', hindex]
          exact le_refl _
        · rw [Function.update_of_ne he] at hs''
          exact h.index s' cursor' hs''

/-- An expression evaluated with cursors has its value. -/
theorem evaluateExpression_spec (hc : Continuous sources) (expression : DerivedExpression)
    (h : Behind sources t cursors) :
    (evaluateExpression t expression cursors).2 =
        expressionValue (valuesOf sources t) expression ∧
      Behind sources t (evaluateExpression t expression cursors).1 := by
  induction expression generalizing cursors with
  | sequence sequenceId =>
      obtain ⟨hvalue, hbehind⟩ := valueAt_spec hc h sequenceId
      unfold evaluateExpression expressionValue
      rw [← hvalue]
      cases hv : valueAt sequenceId t cursors with
      | mk after value =>
          rw [hv] at hbehind
          cases value with
          | none => exact ⟨rfl, hbehind⟩
          | some value => exact ⟨rfl, hbehind⟩
  | constant value => exact ⟨rfl, h⟩
  | binary operation left right ihl ihr =>
      unfold evaluateExpression expressionValue
      split
      · exact ⟨rfl, h⟩
      · obtain ⟨hl, hbl⟩ := ihl h
        obtain ⟨hr, hbr⟩ := ihr hbl
        exact ⟨by rw [← hl, ← hr], hbr⟩
  | missing => exact ⟨rfl, h⟩

theorem evaluateTerms_spec (hc : Continuous sources) (terms : List DerivedLinearTerm) (sum : ℚ)
    (h : Behind sources t cursors) :
    (evaluateTerms t terms sum cursors).2 = termsValue (valuesOf sources t) terms sum ∧
      Behind sources t (evaluateTerms t terms sum cursors).1 := by
  induction terms generalizing sum cursors with
  | nil => exact ⟨rfl, h⟩
  | cons term terms ih =>
      obtain ⟨hvalue, hbehind⟩ := valueAt_spec hc h term.sequenceId
      unfold evaluateTerms termsValue
      rw [← hvalue]
      cases hv : valueAt term.sequenceId t cursors with
      | mk after value =>
          rw [hv] at hbehind
          cases value with
          | none => exact ⟨rfl, hbehind⟩
          | some value => exact ih _ hbehind

theorem evaluateFormula_spec (hc : Continuous sources) (formula : DerivedFormula)
    (h : Behind sources t cursors) :
    (evaluateFormula formula t cursors).2 = formulaValue (valuesOf sources t) formula ∧
      Behind sources t (evaluateFormula formula t cursors).1 := by
  cases formula with
  | linear combination => exact evaluateTerms_spec hc combination.terms _ h
  | expression expression => exact evaluateExpression_spec hc expression h

/-- The point a value becomes. -/
def derivedPoint (projectId : ProjectId) (config : RuntimeDerivedSeriesConfig) (t : Timestamp)
    (v : ℚ) : RawTimeseriesPoint :=
  { time := t
    sequenceId := config.derivedSequenceId
    value := .double (.finite v)
    projectId := projectId }

/-- The derived point of a value. -/
def valuePoint (projectId : ProjectId) (config : RuntimeDerivedSeriesConfig) (t : Timestamp) :
    EvaluationResult → Option RawTimeseriesPoint
  | .value v => some (derivedPoint projectId config t v)
  | _ => none

/-- The evaluation loop with a lookup of its own for every time and every leaf. -/
def lookupTimes (projectId : ProjectId) (config : RuntimeDerivedSeriesConfig)
    (keep : Timestamp → Bool) (values : Timestamp → SequenceId → Option ℚ) :
    List Timestamp → Evaluated
  | [] => {}
  | time :: times =>
      let rest := lookupTimes projectId config keep values times
      if !keep time then rest
      else
        match formulaValue (values time) config.formula with
        | .missing => rest
        | .error message =>
            { rest with errors := rest.errors + 1, firstError := message }
        | .value value =>
            { rest with points := derivedPoint projectId config time value :: rest.points }

/-- **The evaluation loop without cursors.**  One forward cursor for each source serves all
    times and all leaves, whichever of them the formula stops at. -/
theorem evaluateTimes_lookup (hc : Continuous sources) (p : ProjectId)
    (config : RuntimeDerivedSeriesConfig) (keep : Timestamp → Bool) {times : List Timestamp}
    (hasc : Ascending (fun time => time) times)
    (h : ∀ t ∈ times, Behind sources t cursors) :
    evaluateTimes p config keep times cursors =
      lookupTimes p config keep (valuesOf sources) times := by
  induction times generalizing cursors with
  | nil => rfl
  | cons t times ih =>
      obtain ⟨hlt, hrest⟩ := (ascending_cons _).mp hasc
      unfold evaluateTimes lookupTimes
      by_cases hk : keep t = true
      · obtain ⟨hvalue, hbehind⟩ :=
          evaluateFormula_spec hc config.formula (h t (List.mem_cons_self ..))
        have htail := ih hrest fun t' ht' => hbehind.mono hc (le_of_lt (hlt t' ht'))
        simp only [hk, Bool.not_true, Bool.false_eq_true, if_false]
        rw [← hvalue, ← htail]
        cases (evaluateFormula config.formula t cursors).2 with
        | value v => rfl
        | missing => rfl
        | error message => rfl
      · have hk' : keep t = false := Bool.eq_false_iff.mpr hk
        simp only [hk', Bool.not_false, if_true]
        exact ih hrest fun t' ht' => h t' (List.mem_cons_of_mem _ ht')

/-- Lookups that agree on the formula make the same loop. -/
theorem lookupTimes_congr {values values' : Timestamp → SequenceId → Option ℚ}
    {config : RuntimeDerivedSeriesConfig}
    (h : ∀ t, formulaValue (values t) config.formula = formulaValue (values' t) config.formula)
    (p : ProjectId) (keep : Timestamp → Bool) (times : List Timestamp) :
    lookupTimes p config keep values times = lookupTimes p config keep values' times := by
  induction times with
  | nil => rfl
  | cons t times ih => simp only [lookupTimes, ih, h]

/-- The points of a lookup over some times. -/
theorem lookupTimes_points (p : ProjectId) (config : RuntimeDerivedSeriesConfig)
    (keep : Timestamp → Bool) (values : Timestamp → SequenceId → Option ℚ)
    (times : List Timestamp) :
    (lookupTimes p config keep values times).points =
      (times.filter keep).filterMap fun t =>
        valuePoint p config t (formulaValue (values t) config.formula) := by
  induction times with
  | nil => rfl
  | cons t times ih =>
      unfold lookupTimes
      by_cases hk : keep t = true
      · rw [List.filter_cons_of_pos hk, List.filterMap_cons, ← ih]
        simp only [hk, Bool.not_true, Bool.false_eq_true, if_false]
        cases formulaValue (values t) config.formula with
        | value v => rfl
        | missing => rfl
        | error message => rfl
      · have hk' : keep t = false := Bool.eq_false_iff.mpr hk
        rw [List.filter_cons_of_neg hk, ← ih]
        simp only [hk', Bool.not_false, if_true]

/-! ## The derived series -/

/-- The numeric points of a sequence. -/
def numericPoints (points : List RawTimeseriesPoint) : List NumericPoint :=
  points.filterMap fun point => (numericValue point.value).map fun value => ⟨point.time, value⟩

/-- The value of each source at a time, between its points. -/
def sourceValues (points : SequenceId → List RawTimeseriesPoint) (t : Timestamp)
    (s : SequenceId) : Option ℚ :=
  linearAt NumericPoint.time NumericPoint.value (numericPoints (points s)) t

/-- **The derived series of a formula**: a value at every time of a source at which
    the formula has one. -/
def Derives (config : RuntimeDerivedSeriesConfig) (points : SequenceId → List RawTimeseriesPoint)
    (t : Timestamp) (v : ℚ) : Prop :=
  (∃ s ∈ sourcesFor config, ∃ q ∈ numericPoints (points s), q.time = t) ∧
    formulaValue (sourceValues points t) config.formula = .value v

theorem Derives.unique {config : RuntimeDerivedSeriesConfig}
    {points : SequenceId → List RawTimeseriesPoint} {t : Timestamp} {v v' : ℚ}
    (h : Derives config points t v) (h' : Derives config points t v') : v = v' :=
  EvaluationResult.value.inj (h.2.symm.trans h'.2)

/-- The numeric points are in order. -/
theorem ascending_numericPoints {points : List RawTimeseriesPoint}
    (h : Ascending RawTimeseriesPoint.time points) :
    Ascending NumericPoint.time (numericPoints points) := by
  refine List.pairwise_filterMap.mpr (List.Pairwise.imp ?_ h)
  intro a b hab x hx y hy
  obtain ⟨v, -, rfl⟩ := Option.map_eq_some_iff.mp hx
  obtain ⟨u, -, rfl⟩ := Option.map_eq_some_iff.mp hy
  exact hab

theorem spans_of_derives {config : RuntimeDerivedSeriesConfig}
    {points : SequenceId → List RawTimeseriesPoint}
    (hasc : ∀ s, Ascending RawTimeseriesPoint.time (points s)) {t : Timestamp} {v : ℚ}
    (h : Derives config points t v) {s : SequenceId} (hs : s ∈ sourcesFor config) :
    Spans NumericPoint.time (numericPoints (points s)) t :=
  (linearAt_isSome _ (ascending_numericPoints (hasc s))).mp (formulaValue_defined h.2 hs)

theorem numericPoints_slice {points slice : List RawTimeseriesPoint} (h : slice <:+: points) :
    numericPoints slice <:+: numericPoints points := by
  obtain ⟨front, back, rfl⟩ := h
  refine ⟨numericPoints front, numericPoints back, ?_⟩
  rw [numericPoints, numericPoints, numericPoints, numericPoints, List.filterMap_append,
    List.filterMap_append]

section Slices

variable {config : RuntimeDerivedSeriesConfig}
  {points slices : SequenceId → List RawTimeseriesPoint}

/-- A stretch that reaches both sides of a time gives the same value there. -/
theorem sourceValues_slice (hasc : ∀ s, Ascending RawTimeseriesPoint.time (points s))
    (hslice : ∀ s, slices s <:+: points s)
    (hspans : ∀ s ∈ sourcesFor config, Spans NumericPoint.time (numericPoints (slices s)) t) :
    formulaValue (sourceValues slices t) config.formula =
      formulaValue (sourceValues points t) config.formula :=
  formulaValue_congr fun s hs =>
    linearAt_slice _ (ascending_numericPoints (hasc s)) (numericPoints_slice (hslice s))
      (hspans s hs)

/-- What slices of the sources derive, the sources derive. -/
theorem Derives.of_slices (hasc : ∀ s, Ascending RawTimeseriesPoint.time (points s))
    (hslice : ∀ s, slices s <:+: points s) {v : ℚ} (h : Derives config slices t v) :
    Derives config points t v := by
  have hspans : ∀ s ∈ sourcesFor config, Spans NumericPoint.time (numericPoints (slices s)) t :=
    fun s hs => spans_of_derives (fun s => (hasc s).sublist _ (hslice s).sublist) h hs
  obtain ⟨⟨s, hs, q, hq, ht⟩, hv⟩ := h
  refine ⟨⟨s, hs, q, (numericPoints_slice (hslice s)).subset hq, ht⟩, ?_⟩
  rw [← sourceValues_slice hasc hslice hspans]
  exact hv

/-- What the sources derive at a time of the slices which all slices span, the
    slices derive. -/
theorem Derives.slice (hasc : ∀ s, Ascending RawTimeseriesPoint.time (points s))
    (hslice : ∀ s, slices s <:+: points s) {v : ℚ} (h : Derives config points t v)
    (htime : ∃ s ∈ sourcesFor config, ∃ q ∈ numericPoints (slices s), q.time = t)
    (hspans : ∀ s ∈ sourcesFor config, Spans NumericPoint.time (numericPoints (slices s)) t) :
    Derives config slices t v := by
  refine ⟨htime, ?_⟩
  rw [sourceValues_slice hasc hslice hspans]
  exact h.2

end Slices

/-! ## The item of a formula -/

/-- Every source is registered as a continuous numeric sequence. -/
def NumericSources (p : ProjectId) (registry : RuntimeConfigRegistry)
    (config : RuntimeDerivedSeriesConfig) : Prop :=
  ∀ s ∈ sourcesFor config, numericSourceConfig p registry s = true

/-- A numeric source is interpolated. -/
theorem numericSource_eq {p : ProjectId} {registry : RuntimeConfigRegistry} {s : SequenceId}
    (h : numericSourceConfig p registry s = true) (data : WindowData) :
    ∃ source, numericSource p registry data s = some source ∧ source.kind = .continuous ∧
      source.points = numericPoints ((data.sequenceValues.find s).getD []) := by
  unfold numericSourceConfig at h
  unfold numericSource
  cases hf : findInstance p s registry with
  | none =>
      rw [hf] at h
      cases h
  | some found =>
      rw [hf, Option.any_some] at h
      simp only [h, if_true]
      refine ⟨_, rfl, ?_, rfl⟩
      unfold continuousNumeric at h
      exact of_decide_eq_true (Bool.and_eq_true_iff.mp h).1

/-- The point a value makes, at one time. -/
theorem valuePoint_eq_some {p : ProjectId} {config : RuntimeDerivedSeriesConfig} {t : Timestamp}
    {result : EvaluationResult} {q : RawTimeseriesPoint} :
    valuePoint p config t result = some q ↔
      ∃ v, result = .value v ∧ q = derivedPoint p config t v := by
  cases result with
  | value v =>
      constructor
      · intro h
        exact ⟨v, rfl, (Option.some.inj h).symm⟩
      · rintro ⟨v', hv, rfl⟩
        rw [EvaluationResult.value.inj hv]
        rfl
  | missing =>
      exact ⟨fun h => (by cases h), fun ⟨_, h, _⟩ => (by cases h)⟩
  | error message =>
      exact ⟨fun h => (by cases h), fun ⟨_, h, _⟩ => (by cases h)⟩

/-- The sources of a formula, and nothing else. -/
def formulaSources (p : ProjectId) (registry : RuntimeConfigRegistry)
    (config : RuntimeDerivedSeriesConfig) (data : WindowData) (s : SequenceId) :
    Option NumericSource :=
  if s ∈ sourcesFor config then numericSource p registry data s else none

/-- The sources of a formula, each interpolated. -/
theorem formulaSources_eq {p : ProjectId} {registry : RuntimeConfigRegistry}
    {config : RuntimeDerivedSeriesConfig} (hnum : NumericSources p registry config)
    (data : WindowData) {s : SequenceId} (hs : s ∈ sourcesFor config) :
    ∃ source, formulaSources p registry config data s = some source ∧
      source.kind = .continuous ∧
        source.points = numericPoints ((data.sequenceValues.find s).getD []) := by
  obtain ⟨source, heq, hkind, hpoints⟩ := numericSource_eq (hnum s hs) data
  exact ⟨source, (if_pos hs).trans heq, hkind, hpoints⟩

/-- All sources of an accepted series are interpolated. -/
theorem formulaSources_continuous {p : ProjectId} {registry : RuntimeConfigRegistry}
    {config : RuntimeDerivedSeriesConfig} (hnum : NumericSources p registry config)
    {data : WindowData}
    (hasc : ∀ s, Ascending RawTimeseriesPoint.time ((data.sequenceValues.find s).getD [])) :
    Continuous (formulaSources p registry config data) := by
  intro s source heq
  by_cases hs : s ∈ sourcesFor config
  · obtain ⟨source', heq', hkind, hpoints⟩ := formulaSources_eq hnum data hs
    obtain rfl := Option.some.inj (heq.symm.trans heq')
    exact ⟨hkind, by rw [hpoints]; exact ascending_numericPoints (hasc s)⟩
  · rw [formulaSources, if_neg hs] at heq
    cases heq

/-- The candidate times are those of the numeric points of the sources. -/
theorem mem_candidateTimes {p : ProjectId} {registry : RuntimeConfigRegistry}
    {config : RuntimeDerivedSeriesConfig} (hnum : NumericSources p registry config)
    (data : WindowData) (t : Timestamp) :
    t ∈ candidateTimes p registry data (sourcesFor config) ↔
      ∃ s ∈ sourcesFor config, ∃ q ∈ numericPoints ((data.sequenceValues.find s).getD []),
        q.time = t := by
  have hiff : t ∈ candidateTimes p registry data (sourcesFor config) ↔
      t ∈ (sourcesFor config).flatMap fun s =>
        ((numericSource p registry data s).map fun source =>
          source.points.map NumericPoint.time).getD [] := mem_sortUnique_self
  rw [hiff, List.mem_flatMap]
  refine exists_congr fun s => and_congr_right fun hs => ?_
  obtain ⟨source, heq, -, hpoints⟩ := numericSource_eq (hnum s hs) data
  rw [heq, Option.map_some, Option.getD_some, hpoints, List.mem_map]

/-- The cursors an item starts with. -/
def startCursors (p : ProjectId) (registry : RuntimeConfigRegistry)
    (config : RuntimeDerivedSeriesConfig) (data : WindowData) : NumericCursorMap := fun s =>
  if s ∈ sourcesFor config then
    (numericSource p registry data s).map fun source => { source := source }
  else none

/-- No cursor has moved before the first time. -/
theorem behind_start (p : ProjectId) (registry : RuntimeConfigRegistry)
    (config : RuntimeDerivedSeriesConfig) (data : WindowData) (t : Timestamp) :
    Behind (formulaSources p registry config data) t (startCursors p registry config data) := by
  refine ⟨fun s => ?_, fun s cursor hs => ?_⟩
  · rw [formulaSources, startCursors]
    split
    · rw [Option.map_map]
      exact Option.map_id'
    · rfl
  · rw [startCursors] at hs
    split at hs
    · obtain ⟨source, -, rfl⟩ := Option.map_eq_some_iff.mp hs
      exact Nat.zero_le _
    · cases hs

/-- **The loop of an item** looks up the queried points at every time. -/
theorem evaluateTimes_start {p : ProjectId} {registry : RuntimeConfigRegistry}
    {config : RuntimeDerivedSeriesConfig} (hnum : NumericSources p registry config)
    {data : WindowData}
    (hasc : ∀ s, Ascending RawTimeseriesPoint.time ((data.sequenceValues.find s).getD []))
    (keep : Timestamp → Bool) :
    evaluateTimes p config keep (candidateTimes p registry data (sourcesFor config))
        (startCursors p registry config data) =
      lookupTimes p config keep (sourceValues fun s => (data.sequenceValues.find s).getD [])
        (candidateTimes p registry data (sourcesFor config)) := by
  have htimes : Ascending (fun time => time)
      (candidateTimes p registry data (sourcesFor config)) := ascending_sortUnique _ _
  rw [evaluateTimes_lookup (formulaSources_continuous hnum hasc) p config keep htimes
    fun t _ => behind_start p registry config data t]
  refine lookupTimes_congr (fun t => formulaValue_congr fun s hs => ?_) p keep _
  obtain ⟨source, heq, -, hpoints⟩ := formulaSources_eq hnum data hs
  rw [valuesOf, heq, Option.bind_some, hpoints]
  rfl

/-- **The item of a formula holds what the queried points derive**, restricted to
    the patch if there is one. -/
theorem computeFrom_points {p : ProjectId} {registry : RuntimeConfigRegistry}
    {config : RuntimeDerivedSeriesConfig} (hnum : NumericSources p registry config)
    (range : Option IncrementalRange) {data : WindowData}
    (hasc : ∀ s, Ascending RawTimeseriesPoint.time ((data.sequenceValues.find s).getD [])) :
    let item := computeFrom p registry range data config
    let points := fun s => (data.sequenceValues.find s).getD []
    Ascending RawTimeseriesPoint.time item.points.points ∧
      ∀ q, q ∈ item.points.points ↔ ∃ t v,
        (range.isSome = true → item.patchStart ≤ t ∧ t ≤ item.patchEnd) ∧
          Derives config points t v ∧ q = derivedPoint p config t v := by
  intro item points
  set times := candidateTimes p registry data (sourcesFor config)
  have htasc : Ascending (fun time => time) times := ascending_sortUnique _ _
  have hitem : item.points.points = (times.filter fun time =>
      range.isNone || (decide (item.patchStart ≤ time) && decide (time ≤ item.patchEnd))).filterMap
        fun t => valuePoint p config t (formulaValue (sourceValues points t) config.formula) :=
    (congrArg Evaluated.points (evaluateTimes_start hnum hasc
      fun time => range.isNone ||
        (decide (item.patchStart ≤ time) && decide (time ≤ item.patchEnd)))).trans
      (lookupTimes_points p config _ (sourceValues points) times)
  rw [hitem]
  constructor
  · refine List.pairwise_filterMap.mpr ((htasc.filter _ _).imp ?_)
    intro a b hab x hx y hy
    obtain ⟨v, -, rfl⟩ := valuePoint_eq_some.mp hx
    obtain ⟨u, -, rfl⟩ := valuePoint_eq_some.mp hy
    exact hab
  · intro q
    rw [List.mem_filterMap]
    constructor
    · -- a point of the item stands at a candidate time inside the patch
      rintro ⟨t, ht, hq⟩
      obtain ⟨htime, hk⟩ := List.mem_filter.mp ht
      obtain ⟨v, hv, rfl⟩ := valuePoint_eq_some.mp hq
      refine ⟨t, v, fun hsome => ?_,
        ⟨(mem_candidateTimes hnum data t).mp htime, hv⟩, rfl⟩
      cases range with
      | none => cases hsome
      | some range => simpa using hk
    · rintro ⟨t, v, hk, ⟨htime, hv⟩, rfl⟩
      refine ⟨t, List.mem_filter.mpr ⟨(mem_candidateTimes hnum data t).mpr htime, ?_⟩,
        valuePoint_eq_some.mpr ⟨v, hv, rfl⟩⟩
      cases range with
      | none => rfl
      | some range => simpa using hk rfl

end FormulaValue
