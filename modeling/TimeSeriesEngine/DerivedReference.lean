import TimeSeriesEngine.DerivedAgreement
import TimeSeriesEngine.StoredPoints
import TimeSeriesEngine.Watermark

/-!
# A full refresh against its reference

The reference knows no cursors, no snapshot and no early stop: at each time every source has
the point at that time or the line between the two points around it, and the formula is
evaluated over these values.

* `Reads` — one source at one time;
* `evaluate` — a formula over the values of its sources, an error or a number;
* `DerivedAt` — the derived series;
* `evaluateTimes_lookup` — the shared cursors look up what each leaf would look up alone;
* `full_refresh_reference` — a full refresh leaves the reference, in every reachable state.
-/

namespace DerivedReference

open TseTypes KeyedTable OrderedSeries PiecewiseLinear HotWindow WindowContent WindowRefinement
open WindowRuns StoredPoints Registry UpdateRange DerivedSeries FormulaValue IngestFrame
open DerivedPublish DerivedPatch FullRefresh DerivedAgreement Transition

/-! ## The reference -/

/-- What a source has at a time: the point at that time, or the line between the two points
    around it. -/
inductive Reads (points : List RawTimeseriesPoint) (t : Timestamp) : ℚ → Prop where
  | exact {q : RawTimeseriesPoint} {v : ℚ} (mem : q ∈ points) (time : q.time = t)
      (value : numericValue q.value = some v) : Reads points t v
  | line {left right : RawTimeseriesPoint} {a b : ℚ}
      (neighbours : Neighbours RawTimeseriesPoint.time points t left right)
      (left_value : numericValue left.value = some a)
      (right_value : numericValue right.value = some b) :
      Reads points t
        (a + (b - a) * (((t - left.time : Int) : ℚ) / ((right.time - left.time : Int) : ℚ)))

/-- The value of an operation; a division by zero has none. -/
def operate (operation : DerivedOperator) (left right : ℚ) : Except String ℚ :=
  match operation with
  | .add => .ok (left + right)
  | .subtract => .ok (left - right)
  | .multiply => .ok (left * right)
  | .divide => if right = 0 then .error "derived division by zero" else .ok (left / right)
  | .unspecified => .error "derived operator is unspecified"

/-- The value of an expression where every sequence has one. -/
def evaluateNode (x : SequenceId → ℚ) : DerivedExpression → Except String ℚ
  | .sequence sequenceId => .ok (x sequenceId)
  | .constant value => .ok (number value)
  | .binary operation left right => do
      let a ← evaluateNode x left
      let b ← evaluateNode x right
      operate operation a b
  | .missing => .error "unknown derived expression node"

/-- A formula over the values of its sources. -/
def evaluate (x : SequenceId → ℚ) : DerivedFormula → Except String ℚ
  | .linear combination =>
      .ok (number combination.bias +
        (combination.terms.map fun term => number term.coefficient * x term.sequenceId).sum)
  | .expression expression => evaluateNode x expression

/-- **The reference**: a value at every time of a source at which every source the formula
    reads is defined and the evaluation raises no error. -/
structure DerivedAt (config : RuntimeDerivedSeriesConfig)
    (points : SequenceId → List RawTimeseriesPoint) (t : Timestamp) (v : ℚ) : Prop where
  time : ∃ s ∈ sourcesFor config, ∃ q ∈ points s, q.time = t
  value : ∃ x : SequenceId → ℚ, (∀ s ∈ sourcesFor config, Reads (points s) t (x s)) ∧
    evaluate x config.formula = .ok v

/-- The points with a finite numeric value; a snapshot counts the others and passes them over. -/
def numericOnly (points : List RawTimeseriesPoint) : List RawTimeseriesPoint :=
  points.filter fun q => (numericValue q.value).isSome

/-! ## Formulas whose sources all have values -/

/-- An operator of the service gives the value the reference gives. -/
theorem operate_iff {operation : DerivedOperator} {left right v : ℚ} :
    applyOperator operation left right = .value v ↔ operate operation left right = .ok v := by
  cases operation with
  | add => exact ⟨fun h => (by cases h; rfl), fun h => (by cases h; rfl)⟩
  | subtract => exact ⟨fun h => (by cases h; rfl), fun h => (by cases h; rfl)⟩
  | multiply => exact ⟨fun h => (by cases h; rfl), fun h => (by cases h; rfl)⟩
  | unspecified => exact ⟨fun h => (by cases h), fun h => (by cases h)⟩
  | divide =>
      unfold applyOperator operate
      by_cases hzero : right = 0
      · simp only [if_pos hzero]
        exact ⟨fun h => (by cases h), fun h => (by cases h)⟩
      · simp only [if_neg hzero]
        exact ⟨fun h => (by cases h; rfl), fun h => (by cases h; rfl)⟩

theorem bind_eq_ok {α β : Type} {r : Except String α} {f : α → Except String β} {b : β} :
    (r >>= f) = .ok b ↔ ∃ a, r = .ok a ∧ f a = .ok b := by
  cases r with
  | error message => exact ⟨fun h => (by cases h), fun ⟨_, h, _⟩ => (by cases h)⟩
  | ok a => exact ⟨fun h => ⟨a, rfl, h⟩, fun ⟨_, h, hf⟩ => (by cases h; exact hf)⟩

/-- An expression has its value when the reference gives it. -/
theorem expressionValue_iff (x : SequenceId → ℚ) {expression : DerivedExpression} {v : ℚ} :
    expressionValue (fun s => some (x s)) expression = .value v ↔
      evaluateNode x expression = .ok v := by
  induction expression generalizing v with
  | sequence sequenceId => exact ⟨fun h => (by cases h; rfl), fun h => (by cases h; rfl)⟩
  | constant value => exact ⟨fun h => (by cases h; rfl), fun h => (by cases h; rfl)⟩
  | missing => exact ⟨fun h => (by cases h), fun h => (by cases h)⟩
  | binary operation left right ihl ihr =>
      rw [evaluateNode, bind_eq_ok, expressionValue]
      constructor
      · intro h
        split at h
        · cases h
        · obtain ⟨⟨a, ha⟩, ⟨b, hb⟩⟩ := combineValues_value h
          refine ⟨a, ihl.mp ha, bind_eq_ok.mpr ⟨b, ihr.mp hb, ?_⟩⟩
          rw [ha, hb] at h
          exact operate_iff.mp h
      · rintro ⟨a, ha, hrest⟩
        obtain ⟨b, hb, hv⟩ := bind_eq_ok.mp hrest
        have hcomplete : ¬ (left = .missing ∨ right = .missing) := by
          rintro (rfl | rfl)
          · cases ha
          · cases hb
        rw [if_neg hcomplete, ihl.mpr ha, ihr.mpr hb]
        exact operate_iff.mpr hv

/-- Linear terms add up. -/
theorem termsValue_sum (x : SequenceId → ℚ) (terms : List DerivedLinearTerm) (sum : ℚ) :
    termsValue (fun s => some (x s)) terms sum =
      .value (sum + (terms.map fun term => number term.coefficient * x term.sequenceId).sum) := by
  induction terms generalizing sum with
  | nil => simp [termsValue]
  | cons term terms ih =>
      rw [List.map_cons, List.sum_cons, ← add_assoc]
      exact ih _

/-- A formula has its value when the reference gives it. -/
theorem formulaValue_iff (x : SequenceId → ℚ) {formula : DerivedFormula} {v : ℚ} :
    formulaValue (fun s => some (x s)) formula = .value v ↔ evaluate x formula = .ok v := by
  cases formula with
  | linear combination =>
      rw [formulaValue, termsValue_sum, evaluate]
      exact ⟨fun h => (by cases h; rfl), fun h => (by cases h; rfl)⟩
  | expression expression => exact expressionValue_iff x

/-! ## Sources -/

/-- The numeric points of a sequence. -/
theorem mem_numericPoints {points : List RawTimeseriesPoint} {x : NumericPoint} :
    x ∈ numericPoints points ↔
      ∃ q ∈ points, numericValue q.value = some x.value ∧ q.time = x.time := by
  rw [numericPoints, List.mem_filterMap]
  refine exists_congr fun q => and_congr_right fun _ => ?_
  rw [Option.map_eq_some_iff]
  constructor
  · rintro ⟨value, hvalue, rfl⟩
    exact ⟨hvalue, rfl⟩
  · rintro ⟨hvalue, htime⟩
    exact ⟨x.value, hvalue, by rw [htime]⟩

theorem mem_numericOnly {points : List RawTimeseriesPoint} {q : RawTimeseriesPoint} :
    q ∈ numericOnly points ↔ q ∈ points ∧ ∃ v, numericValue q.value = some v := by
  rw [numericOnly, List.mem_filter, Option.isSome_iff_exists]

/-- Neighbours of the numeric points are neighbours of their snapshot. -/
theorem neighbours_numeric {points : List RawTimeseriesPoint} {t : Timestamp}
    {left right : RawTimeseriesPoint} {a b : ℚ} (ha : numericValue left.value = some a)
    (hb : numericValue right.value = some b) :
    Neighbours RawTimeseriesPoint.time (numericOnly points) t left right ↔
      left ∈ points ∧ right ∈ points ∧
        Neighbours NumericPoint.time (numericPoints points) t ⟨left.time, a⟩ ⟨right.time, b⟩ := by
  constructor
  · intro h
    have hleft := (mem_numericOnly.mp h.left_mem).1
    have hright := (mem_numericOnly.mp h.right_mem).1
    refine ⟨hleft, hright, mem_numericPoints.mpr ⟨left, hleft, ha, rfl⟩,
      mem_numericPoints.mpr ⟨right, hright, hb, rfl⟩, h.left_lt, h.lt_right, fun x hx => ?_⟩
    obtain ⟨q, hq, hvalue, hqt⟩ := mem_numericPoints.mp hx
    rw [← hqt]
    exact h.next q (mem_numericOnly.mpr ⟨hq, x.value, hvalue⟩)
  · rintro ⟨hleft, hright, h⟩
    refine ⟨mem_numericOnly.mpr ⟨hleft, a, ha⟩, mem_numericOnly.mpr ⟨hright, b, hb⟩, h.left_lt,
      h.lt_right, fun q hq => ?_⟩
    obtain ⟨hq', v, hv⟩ := mem_numericOnly.mp hq
    exact h.next ⟨q.time, v⟩ (mem_numericPoints.mpr ⟨q, hq', hv, rfl⟩)

/-- **A source has the value of the line through its snapshot.** -/
theorem reads_iff {points : List RawTimeseriesPoint}
    (hasc : Ascending RawTimeseriesPoint.time points) {t : Timestamp} {v : ℚ} :
    Reads (numericOnly points) t v ↔
      linearAt NumericPoint.time NumericPoint.value (numericPoints points) t = some v := by
  rw [linearAt_eq_some _ (ascending_numericPoints hasc)]
  constructor
  · rintro (⟨hq, htime, hvalue⟩ | ⟨hnb, ha, hb⟩)
    · exact Or.inl ⟨⟨t, v⟩, mem_numericPoints.mpr
        ⟨_, (mem_numericOnly.mp hq).1, hvalue, htime⟩, rfl, rfl⟩
    · exact Or.inr ⟨_, _, ((neighbours_numeric ha hb).mp hnb).2.2, rfl⟩
  · rintro (⟨x, hx, hxt, hxv⟩ | ⟨left, right, hnb, hv⟩)
    · obtain ⟨q, hq, hvalue, htime⟩ := mem_numericPoints.mp hx
      rw [hxv] at hvalue
      exact .exact (mem_numericOnly.mpr ⟨hq, v, hvalue⟩) (htime.trans hxt) hvalue
    · obtain ⟨l, hl, hlv, hlt⟩ := mem_numericPoints.mp hnb.left_mem
      obtain ⟨r, hr, hrv, hrt⟩ := mem_numericPoints.mp hnb.right_mem
      have hline := Reads.line ((neighbours_numeric hlv hrv).mpr
        ⟨hl, hr, by rw [hlt, hrt]; exact hnb⟩) hlv hrv
      rw [hlt, hrt] at hline
      rw [← hv]
      exact hline

/-- **The reference over the numeric points is what the item of a formula derives.** -/
theorem derivedAt_iff {config : RuntimeDerivedSeriesConfig}
    {points : SequenceId → List RawTimeseriesPoint}
    (hasc : ∀ s, Ascending RawTimeseriesPoint.time (points s)) {t : Timestamp} {v : ℚ} :
    DerivedAt config (fun s => numericOnly (points s)) t v ↔ Derives config points t v := by
  have htime : (∃ s ∈ sourcesFor config, ∃ q ∈ numericOnly (points s), q.time = t) ↔
      ∃ s ∈ sourcesFor config, ∃ x ∈ numericPoints (points s), x.time = t := by
    refine exists_congr fun s => and_congr_right fun _ => ?_
    constructor
    · rintro ⟨q, hq, rfl⟩
      obtain ⟨hq', u, hu⟩ := mem_numericOnly.mp hq
      exact ⟨⟨q.time, u⟩, mem_numericPoints.mpr ⟨q, hq', hu, rfl⟩, rfl⟩
    · rintro ⟨x, hx, rfl⟩
      obtain ⟨q, hq, hvalue, hqt⟩ := mem_numericPoints.mp hx
      exact ⟨q, mem_numericOnly.mpr ⟨hq, x.value, hvalue⟩, hqt⟩
  constructor
  · rintro ⟨ht, x, hreads, hv⟩
    have hread : ∀ s ∈ sourcesFor config, sourceValues points t s = some (x s) :=
      fun s hs => (reads_iff (hasc s)).mp (hreads s hs)
    refine ⟨htime.mp ht, ?_⟩
    rw [formulaValue_congr hread]
    exact (formulaValue_iff x).mpr hv
  · rintro ⟨ht, hv⟩
    -- a formula with a value has a value of each source
    have hread : ∀ s ∈ sourcesFor config,
        sourceValues points t s = some ((sourceValues points t s).getD 0) := by
      intro s hs
      obtain ⟨value, hvalue⟩ := Option.isSome_iff_exists.mp (formulaValue_defined hv hs)
      rw [hvalue, Option.getD_some]
    refine ⟨htime.mpr ht, fun s => (sourceValues points t s).getD 0,
      fun s hs => (reads_iff (hasc s)).mpr (hread s hs), (formulaValue_iff _).mp ?_⟩
    rw [← formulaValue_congr hread]
    exact hv

/-! ## Reachable states -/

/-- The watermark does not fall below the 64-bit range. -/
theorem modelWatermark_ge {found : Option Timestamp} {points : List RawTimeseriesPoint}
    (hpoints : ∀ q ∈ points, int64Min ≤ q.time)
    (hfound : ∀ watermark, found = some watermark → int64Min ≤ watermark) :
    int64Min ≤ modelWatermark found points := by
  cases found with
  | some watermark =>
      exact le_trans (hfound watermark rfl) (Watermark.foldl_max_spec points watermark).1
  | none =>
      show int64Min ≤ (points.getLast?.map RawTimeseriesPoint.time).getD 0
      cases hlast : points.getLast? with
      | none =>
          show int64Min ≤ 0
          decide
      | some last => exact hpoints last (List.mem_of_getLast? hlast)

/-- Step: every watermark stays a 64-bit time. -/
theorem storedStep_watermark {m : StoredModel} {call : ServiceCall} (hr : InRange call.op)
    (h : ∀ project watermark, m.watermark project = some watermark → int64Min ≤ watermark) :
    ∀ project watermark, (storedStep m call).watermark project = some watermark →
      int64Min ≤ watermark := by
  intro project watermark hw
  obtain ⟨p, op⟩ := call
  rw [storedStep] at hw
  cases op with
  | configure size =>
      simp only at hw
      split at hw
      · exact h project watermark hw
      · exact h project watermark hw
  | update data override =>
      simp only at hw
      split at hw
      · exact h project watermark hw
      · have hw' : Function.update m.watermark (effectiveProject p)
            (some (modelWatermark (m.watermark (effectiveProject p)) data.points)) project =
              some watermark := hw
        rw [Function.update_apply] at hw'
        split at hw'
        · rw [← Option.some.inj hw']
          exact modelWatermark_ge (fun q hq => (hr q hq).1) (h _)
        · exact h project watermark hw'
  | replace sequenceId data =>
      simp only at hw
      split at hw
      · exact h project watermark hw
      · exact h project watermark hw
  | patch sequenceId startTime endTime data =>
      simp only at hw
      split at hw
      · exact h project watermark hw
      · exact h project watermark hw
  | query query => exact h project watermark hw
  | statistics ids => exact h project watermark hw

/-- Run: a full refresh finds what it relies on in every reachable state. -/
theorem run_ready {calls : List ServiceCall} (hr : ∀ call ∈ calls, InRange call.op)
    (p : ProjectId) : Ready p (run callStep {} calls) := by
  have hstored := run_stored hr
  have hwatermark : ∀ project watermark,
      (run storedStep emptyStored calls).watermark project = some watermark →
        int64Min ≤ watermark :=
    @run_invariant _ _ storedStep
      (fun m => ∀ project watermark, m.watermark project = some watermark → int64Min ≤ watermark)
      _ (fun _ _ hop h => storedStep_watermark hop h) _ (fun _ _ hw => by cases hw) calls hr
  refine ⟨hstored.valid, hstored.windowSize_pos p, fun watermark hw => ?_⟩
  rw [← hstored.watermark] at hw
  exact hwatermark _ watermark hw

/-- **A FULL REFRESH EQUALS ITS REFERENCE.**  In every reachable state a full refresh of
    accepted formulas succeeds.  Each enabled one then holds exactly the reference over the
    numeric points of the default live window, each disabled one nothing, and the shared
    cursors look up what every leaf would look up alone. -/
theorem full_refresh_reference (capacity : Nat) {p : ProjectId} {registry : RuntimeConfigRegistry}
    (hset : AcceptedSet p registry) {calls : List ServiceCall}
    (hr : ∀ call ∈ calls, InRange call.op) (generation : Nat) :
    ∃ after result,
      refreshInternal capacity p registry none ⟨run callStep {} calls, generation⟩ =
        .ok (after, result) ∧
      ∀ config ∈ allDerivedSeries p registry,
        (config.enabled = true → Storable config.derivedSequenceId →
          Ascending RawTimeseriesPoint.time (retained p config.derivedSequenceId after.window) ∧
          ∀ q, q ∈ retained p config.derivedSequenceId after.window ↔ ∃ t v,
            DerivedAt config (fun s => numericOnly (livePoints p (run callStep {} calls) s)) t v ∧
              q = derivedPoint p config t v) ∧
        (config.enabled = false → retained p config.derivedSequenceId after.window = []) ∧
        ∀ (data : WindowData) (keep : Timestamp → Bool),
          (∀ s, Ascending RawTimeseriesPoint.time ((data.sequenceValues.find s).getD [])) →
          evaluateTimes p config keep (candidateTimes p registry data (sourcesFor config))
              (startCursors p registry config data) =
            lookupTimes p config keep
              (sourceValues fun s => (data.sequenceValues.find s).getD [])
              (candidateTimes p registry data (sourcesFor config)) := by
  let state : DerivedState := ⟨run callStep {} calls, generation⟩
  have hready : Ready p state.window := run_ready hr p
  obtain ⟨result, hresult⟩ := refreshInternal_ok capacity hset hready
  refine ⟨_, result, hresult, fun config hconfig => ⟨fun henabled hstore => ?_,
    full_cleared capacity hset hready hconfig, fun data keep hasc =>
      evaluateTimes_start (hset.numeric hconfig) hasc keep⟩⟩
  -- what is written is what the formula derives from the live points
  obtain ⟨points, hasc, hpoints, hstored, -⟩ := full_written capacity hset hready hconfig henabled
  rw [hstored hstore]
  refine ⟨hasc, fun q => (hpoints q).trans ?_⟩
  refine exists_congr fun t => exists_congr fun v => and_congr_left fun _ => ?_
  refine (derivedAt_iff fun s => ?_).symm
  rw [livePoints]
  split
  · exact ascending_nil _
  · exact (ascending_retained hready.valid p s).filter _ _

/-- A truth value between two numbers. -/
def mixedFast : List RawTimeseriesPoint :=
  [unitPoint "fast" 0, { unitPoint "fast" 10 with value := .bool true },
    { unitPoint "fast" 20 with value := .double (.finite 3) }]

/-- Points of two sequences at different times. -/
def mixedBatch : TimeseriesBatch where
  points := mixedFast ++ [unitPoint "slow" 0, unitPoint "slow" 5, unitPoint "slow" 20]

/-- One update with them. -/
def mixedCalls : List ServiceCall := [⟨"p", .update mixedBatch none⟩]

theorem mixedCalls_inRange : ∀ call ∈ mixedCalls, InRange call.op := by
  intro call hcall
  obtain rfl := List.mem_singleton.mp hcall
  show ∀ q ∈ mixedBatch.points, int64Min ≤ q.time ∧ q.time ≤ int64Max
  decide +kernel

/-- A refresh over points of two kinds. -/
theorem full_refresh_reference_mixed :
    ∃ after result,
      refreshInternal 1 "p" twoSources none ⟨run callStep {} mixedCalls, 0⟩ =
        .ok (after, result) ∧
      ∀ q, q ∈ retained "p" "sum" after.window ↔ ∃ t v,
        DerivedAt sumOfBoth (fun s => numericOnly (livePoints "p" (run callStep {} mixedCalls) s))
          t v ∧ q = derivedPoint "p" sumOfBoth t v := by
  obtain ⟨after, result, hrefresh, hconfigs⟩ :=
    full_refresh_reference 1 twoSources_accepted mixedCalls_inRange 0
  obtain ⟨henabled, -, -⟩ := hconfigs sumOfBoth (List.mem_singleton_self sumOfBoth)
  exact ⟨after, result, hrefresh, (henabled rfl (by decide +kernel)).2⟩

/-- The truth value is passed over: at 5 the fast sequence is read on the line from 0 to 20,
    although the retained point next to 5 is the one at 10. -/
theorem nonnumeric_passed_over :
    AcceptedSet "p" twoSources ∧ sumOfBoth ∈ allDerivedSeries "p" twoSources ∧
      sumOfBoth.enabled = true ∧ Storable sumOfBoth.derivedSequenceId ∧
      (∀ call ∈ mixedCalls, InRange call.op) ∧
      ¬ ∀ q, q ∈ retained "p" sumOfBoth.derivedSequenceId
          (fullyRefreshed 1 twoSources "p" ⟨run callStep {} mixedCalls, 0⟩).window ↔
        ∃ t v, DerivedAt sumOfBoth (livePoints "p" (run callStep {} mixedCalls)) t v ∧
          q = derivedPoint "p" sumOfBoth t v := by
  refine ⟨twoSources_accepted, List.mem_singleton_self sumOfBoth, rfl, by decide +kernel,
    mixedCalls_inRange, fun hexact => ?_⟩
  have hderived : derivedPoint "p" sumOfBoth 5 (5 / 2) ∈ retained "p" sumOfBoth.derivedSequenceId
      (fullyRefreshed 1 twoSources "p" ⟨run callStep {} mixedCalls, 0⟩).window := by
    decide +kernel
  have hlive : livePoints "p" (run callStep {} mixedCalls) "fast" = mixedFast := by
    decide +kernel
  obtain ⟨t, v, hat, hpoint⟩ := (hexact _).mp hderived
  obtain rfl : (5 : Timestamp) = t := congrArg RawTimeseriesPoint.time hpoint
  obtain ⟨x, hreads, -⟩ := hat.value
  have hfast := hreads "fast" (by decide +kernel)
  rw [hlive] at hfast
  generalize x "fast" = y at hfast
  cases hfast with
  | exact mem time value =>
      have hno : ∀ q ∈ mixedFast, q.time ≠ 5 := by decide +kernel
      exact hno _ mem time
  | line neighbours left_value right_value =>
      -- the point behind 5 is the truth value, which no line starts from
      have hnone : ∀ q ∈ mixedFast, 5 < q.time → q.time ≤ 10 → numericValue q.value = none := by
        decide +kernel
      rcases neighbours.next { unitPoint "fast" 10 with value := .bool true }
        (List.mem_cons_of_mem _ (List.mem_cons_self ..)) with hback | hfront
      · exact absurd (le_trans hback neighbours.left_lt.le) (by decide)
      · rw [hnone _ neighbours.right_mem neighbours.lt_right hfront] at right_value
        cases right_value

end DerivedReference
