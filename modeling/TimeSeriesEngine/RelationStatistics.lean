import TimeSeriesEngine.StatisticsService

/-!
# What a correlation says

The statistics of aligned samples: which sources of a relation are correlated with its
target, and what the coefficient of a source says about the pairs of values.

* `Coefficient` — the coefficient lies between -1 and 1, and at 1 and -1 exactly when the
  pairs lie on a line; it does not depend on the roles or on the units of the values;
* `metricWindow_find` — the window of the metrics has the columns of the samples;
* `correlations_exact` — what a result reports for a relation.
-/

namespace RelationStatistics

open TseTypes KeyedTable ConstraintCheck Registry HotWindow SampleMoments StatisticsService

/-! ## The coefficient -/

/-- There are two pairs at least, and neither value is the same in all of them. -/
def Varies (ps : List (ℝ × ℝ)) : Prop :=
  2 ≤ ps.length ∧ squares (ps.map Prod.fst) ≠ 0 ∧ squares (ps.map Prod.snd) ≠ 0

/-- A correlation, where both sides vary. -/
theorem pearsonCorrelation_eq {ps : List (ℝ × ℝ)} {c : ℝ} :
    pearsonCorrelation Real.sqrt ps = some c ↔
      Varies ps ∧
        products ps / Real.sqrt (squares (ps.map Prod.fst) * squares (ps.map Prod.snd)) = c := by
  have hmeans : ((ps.map Prod.fst).sum / ps.length = mean (ps.map Prod.fst)) ∧
      (ps.map Prod.snd).sum / ps.length = mean (ps.map Prod.snd) := by
    rw [mean, mean, List.length_map, List.length_map]
    exact ⟨rfl, rfl⟩
  rw [pearsonCorrelation, hmeans.1, hmeans.2]
  by_cases hlength : ps.length < 2
  · rw [if_pos hlength]
    refine ⟨fun h => ?_, fun h => absurd h.1.1 (not_le.mpr hlength)⟩
    cases h
  · rw [if_neg hlength]
    have hfst := squares_map Prod.fst ps
    have hsnd := squares_map Prod.snd ps
    simp only [cross] at hfst hsnd
    simp only [← hfst, ← hsnd]
    have hzero : ∀ xs : List ℝ, squares xs ≤ 0 ↔ squares xs = 0 := fun xs =>
      ⟨fun h => le_antisymm h (squares_nonneg xs), le_of_eq⟩
    simp only [hzero]
    split
    · rename_i hsame
      refine ⟨fun h => ?_, fun h => ?_⟩
      · cases h
      · exact absurd hsame (not_or.mpr h.1.2)
    · rename_i hvary
      obtain ⟨hvary, hvary'⟩ := not_or.mp hvary
      rw [Option.some_inj]
      exact ⟨fun h => ⟨⟨not_lt.mp hlength, hvary, hvary'⟩, h⟩, fun h => h.2⟩

/-- What the coefficient of some pairs says about them. -/
structure Coefficient (ps : List (ℝ × ℝ)) (c : ℝ) : Prop where
  bounds : -1 ≤ c ∧ c ≤ 1
  /-- All pairs lie on a rising line. -/
  rising : c = 1 ↔ ∃ a b, 0 < a ∧ ∀ p ∈ ps, p.1 = a * p.2 + b
  falling : c = -1 ↔ ∃ a b, a < 0 ∧ ∀ p ∈ ps, p.1 = a * p.2 + b
  /-- The roles do not matter, -/
  symmetric : pearsonCorrelation Real.sqrt (ps.map Prod.swap) = some c
  /-- and the unit of the source does not. -/
  rescaled : ∀ a b, 0 < a →
    pearsonCorrelation Real.sqrt (ps.map fun p => (p.1, a * p.2 + b)) = some c
  mirrored : ∀ a b, a < 0 →
    pearsonCorrelation Real.sqrt (ps.map fun p => (p.1, a * p.2 + b)) = some (-c)

theorem map_fst_swap (ps : List (ℝ × ℝ)) :
    (ps.map Prod.swap).map Prod.fst = ps.map Prod.snd ∧
      (ps.map Prod.swap).map Prod.snd = ps.map Prod.fst := by
  rw [List.map_map, List.map_map]
  exact ⟨rfl, rfl⟩

theorem map_fst_scaled (ps : List (ℝ × ℝ)) (a b : ℝ) :
    (ps.map fun p => (p.1, a * p.2 + b)).map Prod.fst = ps.map Prod.fst ∧
      (ps.map fun p => (p.1, a * p.2 + b)).map Prod.snd = ps.map fun p => a * p.2 + b := by
  rw [List.map_map, List.map_map]
  exact ⟨rfl, rfl⟩

/-- A source in another unit. -/
theorem pearson_scaled {ps : List (ℝ × ℝ)} (h : Varies ps) {a : ℝ} (ha : a ≠ 0) (b : ℝ) :
    pearsonCorrelation Real.sqrt (ps.map fun p => (p.1, a * p.2 + b)) =
      some (a * products ps /
        (|a| * Real.sqrt (squares (ps.map Prod.fst) * squares (ps.map Prod.snd)))) := by
  obtain ⟨hlength, hfst, hsnd⟩ := h
  obtain ⟨hfirst, hsecond⟩ := map_fst_scaled ps a b
  rw [pearsonCorrelation_eq, Varies, hfirst, hsecond, squares_affine, List.length_map,
    products_affine]
  refine ⟨⟨hlength, hfst, mul_ne_zero (mul_ne_zero ha ha) hsnd⟩, ?_⟩
  rw [show squares (ps.map Prod.fst) * (a * a * squares (ps.map Prod.snd)) =
    a * a * (squares (ps.map Prod.fst) * squares (ps.map Prod.snd)) by ring,
    Real.sqrt_mul (mul_self_nonneg a), Real.sqrt_mul_self_eq_abs]

/-- **The coefficient** of pairs that vary. -/
theorem coefficient_of_pearson {ps : List (ℝ × ℝ)} {c : ℝ}
    (h : pearsonCorrelation Real.sqrt ps = some c) : Coefficient ps c := by
  obtain ⟨hvaries, hc⟩ := pearsonCorrelation_eq.mp h
  obtain ⟨hlength, hfst, hsnd⟩ := hvaries
  have hfirst : 0 < squares (ps.map Prod.fst) := lt_of_le_of_ne (squares_nonneg _) hfst.symm
  have hsecond : 0 < squares (ps.map Prod.snd) := lt_of_le_of_ne (squares_nonneg _) hsnd.symm
  have hle := products_mul_le hsecond
  have hline := products_mul_eq hsecond
  have hslope : ∀ {a b : ℝ}, (∀ p ∈ ps, p.1 = a * p.2 + b) →
      products ps = a * squares (ps.map Prod.snd) := fun hall => products_of_line hall
  have hself := Real.mul_self_sqrt (mul_pos hfirst hsecond).le
  have hroot : 0 < Real.sqrt (squares (ps.map Prod.fst) * squares (ps.map Prod.snd)) :=
    Real.sqrt_pos.mpr (mul_pos hfirst hsecond)
  have hswap : pearsonCorrelation Real.sqrt (ps.map Prod.swap) = some c := by
    obtain ⟨hfirst', hsecond'⟩ := map_fst_swap ps
    rw [pearsonCorrelation_eq, Varies, hfirst', hsecond', List.length_map, products_swap,
      mul_comm (squares _)]
    exact ⟨⟨hlength, hsnd, hfst⟩, hc⟩
  have hscaled := fun (a b : ℝ) (ha : a ≠ 0) => pearson_scaled ⟨hlength, hfst, hsnd⟩ ha b
  rw [← hself] at hle hline
  generalize Real.sqrt (squares (ps.map Prod.fst) * squares (ps.map Prod.snd)) = root
    at hc hle hline hroot hscaled
  have hbounds : |products ps| ≤ root := abs_le_of_sq_le_sq (by nlinarith) hroot.le
  have hproducts : products ps = c * root := by
    rw [← hc]
    field_simp
  refine ⟨?_, ?_, ?_, ?_, fun a b ha => ?_, fun a b ha => ?_⟩
  · rw [← hc, le_div_iff₀ hroot, div_le_iff₀ hroot, neg_one_mul, one_mul]
    exact abs_le.mp hbounds
  · constructor
    · rintro rfl
      obtain ⟨a, b, hall⟩ := hline.mp (by rw [hproducts, one_mul])
      refine ⟨a, b, ?_, hall⟩
      have hpos : 0 < a * squares (ps.map Prod.snd) := by
        rw [← hslope hall, hproducts, one_mul]
        exact hroot
      exact pos_of_mul_pos_left hpos hsecond.le
    · rintro ⟨a, b, ha, hall⟩
      have hpos : 0 < products ps := by
        rw [hslope hall]
        exact mul_pos ha hsecond
      have heq := hline.mpr ⟨a, b, hall⟩
      rw [← hc, (mul_self_inj hpos.le hroot.le).mp heq]
      exact div_self hroot.ne'
  · constructor
    · rintro rfl
      obtain ⟨a, b, hall⟩ := hline.mp (by rw [hproducts]; ring)
      refine ⟨a, b, ?_, hall⟩
      have hneg : a * squares (ps.map Prod.snd) < 0 := by
        rw [← hslope hall, hproducts]
        linarith
      exact neg_of_mul_neg_left hneg hsecond.le
    · rintro ⟨a, b, ha, hall⟩
      have hneg : 0 < -products ps := by
        rw [hslope hall]
        have := mul_neg_of_neg_of_pos ha hsecond
        linarith
      have heq := hline.mpr ⟨a, b, hall⟩
      have hopposite : -products ps = root :=
        (mul_self_inj hneg.le hroot.le).mp (by rw [neg_mul_neg]; exact heq)
      rw [← hc, ← hopposite, div_neg, div_self (neg_pos.mp hneg).ne]
  · exact hswap
  · rw [hscaled a b ha.ne', abs_of_pos ha, mul_div_mul_left _ _ ha.ne', hc]
  · rw [hscaled a b ha.ne, abs_of_neg ha, neg_mul, div_neg, mul_div_mul_left _ _ ha.ne, hc]

/-! ## The columns of the samples -/

/-- The value a sample has for a sequence, as a point. -/
def columnPoint (projectId : ProjectId) (s : SequenceId) (sample : AlignedSample) :
    Option RawTimeseriesPoint :=
  (sample.values.find s).map fun value =>
    { time := sample.time, sequenceId := s, value := value, projectId := projectId }

/-- The values of a sequence in the samples, as points of the project. -/
def column (projectId : ProjectId) (s : SequenceId) (samples : List AlignedSample) :
    List RawTimeseriesPoint :=
  samples.filterMap (columnPoint projectId s)

/-- What is filed under a sequence behind what was there. -/
def filedBehind (before : Option (List RawTimeseriesPoint)) (points : List RawTimeseriesPoint) :
    Option (List RawTimeseriesPoint) :=
  if points = [] then before else some (before.getD [] ++ points)

/-- Filing twice is filing both. -/
theorem filedBehind_append (before : Option (List RawTimeseriesPoint))
    (points more : List RawTimeseriesPoint) :
    filedBehind (filedBehind before points) more = filedBehind before (points ++ more) := by
  rw [filedBehind, filedBehind, filedBehind]
  by_cases hpoints : points = []
  · subst hpoints
    rfl
  · by_cases hmore : more = []
    · subst hmore
      simp [hpoints]
    · simp [hpoints, hmore]

/-- Each of some keys is filed once. -/
theorem foldl_filed {point : SequenceId → Option RawTimeseriesPoint}
    {file : Table SequenceId (List RawTimeseriesPoint) → SequenceId →
      Table SequenceId (List RawTimeseriesPoint)}
    (hfile : ∀ table key s, (file table key).find s =
      if s = key then filedBehind (table.find s) (point s).toList else table.find s)
    {keys : List SequenceId} (hnodup : keys.Nodup)
    (table : Table SequenceId (List RawTimeseriesPoint)) (s : SequenceId) :
    (keys.foldl file table).find s =
      if s ∈ keys then filedBehind (table.find s) (point s).toList else table.find s := by
  induction keys generalizing table with
  | nil => rfl
  | cons key keys ih =>
      obtain ⟨hkey, hnodup⟩ := List.nodup_cons.mp hnodup
      rw [List.foldl_cons, ih hnodup, hfile]
      by_cases hs : s = key
      · subst hs
        rw [if_neg hkey, if_pos rfl, if_pos List.mem_cons_self]
      · rw [if_neg hs]
        simp only [List.mem_cons, hs, false_or]

/-- What a column holds after one more sample. -/
theorem fileSample_find (projectId : ProjectId)
    (table : Table SequenceId (List RawTimeseriesPoint)) (sample : AlignedSample) (s : SequenceId) :
    (fileSample projectId table sample).find s =
      filedBehind (table.find s) (columnPoint projectId s sample).toList := by
  refine (@foldl_filed (fun s => columnPoint projectId s sample) _ (fun table key s => ?_) _
    sample.values.nodup table s).trans ?_
  · by_cases hs : s = key
    · subst hs
      rw [if_pos rfl, columnPoint]
      cases hvalue : sample.values.find s with
      | none => rfl
      | some value => exact find_put_self _ _ _
    · rw [if_neg hs]
      cases hvalue : sample.values.find key with
      | none => rfl
      | some value => exact find_put_of_ne hs _ _
  · by_cases hs : s ∈ sample.values.keys
    · rw [if_pos hs]
    · have hnone : sample.values.find s = none := by
        rw [sample.values.mem_keys] at hs
        simpa using hs
      rw [if_neg hs, columnPoint, hnone]
      rfl

/-- **The window of the metrics** has the columns of the samples. -/
theorem metricWindow_find (projectId : ProjectId) (data : AlignedWindowData) (s : SequenceId) :
    (metricWindow projectId data).sequenceValues.find s =
      if column projectId s data.samples = [] then none
      else some (column projectId s data.samples) := by
  have hfold : ∀ (samples : List AlignedSample)
      (table : Table SequenceId (List RawTimeseriesPoint)),
      (samples.foldl (fileSample projectId) table).find s =
        filedBehind (table.find s) (column projectId s samples) := by
    intro samples
    induction samples with
    | nil => exact fun _ => rfl
    | cons sample samples ih =>
        intro table
        have hcolumn : column projectId s (sample :: samples) =
            (columnPoint projectId s sample).toList ++ column projectId s samples := by
          rw [column, List.filterMap_cons, column]
          cases columnPoint projectId s sample <;> rfl
        rw [List.foldl_cons, ih, fileSample_find, filedBehind_append, hcolumn]
  exact hfold data.samples KeyedTable.empty

/-- The points of a column are the values of the samples. -/
theorem mem_column {projectId : ProjectId} {s : SequenceId} {samples : List AlignedSample}
    {point : RawTimeseriesPoint} :
    point ∈ column projectId s samples ↔ ∃ sample ∈ samples, ∃ value,
      sample.values.find s = some value ∧
        point =
          { time := sample.time, sequenceId := s, value := value, projectId := projectId } := by
  rw [column, List.mem_filterMap]
  refine exists_congr fun sample => and_congr_right fun _ => ?_
  rw [columnPoint, Option.map_eq_some_iff]
  exact exists_congr fun value => and_congr_right fun _ => eq_comm

/-- What the check of aligned samples says about their values. -/
theorem validateAligned_values {projectId : ProjectId} {data : AlignedWindowData}
    (h : validateAlignedWindowData projectId data = none) :
    data.windowStartTime ≤ data.windowEndTime ∧
      ∀ sample ∈ data.samples, ∀ s value, sample.values.find s = some value →
        (s ≠ "" ∧ s.utf8ByteSize ≤ kMaxSequenceIdBytes) ∧ validateValue value = none := by
  rw [validateAlignedWindowData] at h
  split at h
  · cases h
  split at h
  · cases h
  rename_i horder
  split at h
  · cases h
  refine ⟨not_lt.mp horder, fun sample hsample s value hvalue => ?_⟩
  have hkey : s ∈ sample.values.keys := by
    rw [sample.values.mem_keys, hvalue]
    rfl
  have hcheck :=
    List.findSome?_eq_none_iff.mp (List.findSome?_eq_none_iff.mp h sample hsample) s hkey
  rw [hvalue] at hcheck
  split at hcheck
  · cases hcheck
  rename_i hempty
  split at hcheck
  · cases hcheck
  rename_i hlong
  refine ⟨⟨?_, not_lt.mp hlong⟩, hcheck⟩
  rintro rfl
  exact hempty rfl

/-- The window of the metrics passes its check. -/
theorem metricWindow_valid {projectId : ProjectId} {data : AlignedWindowData}
    (h : validateAlignedWindowData projectId data = none) :
    validateWindowData projectId (metricWindow projectId data) = none := by
  obtain ⟨horder, hvalues⟩ := validateAligned_values h
  have horder' : ¬ (metricWindow projectId data).windowEndTime <
      (metricWindow projectId data).windowStartTime := not_lt.mpr horder
  rw [validateWindowData, if_neg (by simp [metricWindow]), if_neg horder']
  refine List.findSome?_eq_none_iff.mpr fun s hs => ?_
  rw [(metricWindow projectId data).sequenceValues.mem_keys, metricWindow_find] at hs
  rw [metricWindow_find, validateSequenceValues_eq_none]
  by_cases hcolumn : column projectId s data.samples = []
  · rw [if_pos hcolumn] at hs
    cases hs
  rw [if_neg hcolumn, Option.getD_some]
  have hpoint : ∀ point ∈ column projectId s data.samples,
      (s ≠ "" ∧ s.utf8ByteSize ≤ kMaxSequenceIdBytes) ∧
        point.sequenceId = s ∧ validateRawPoint projectId point = none := by
    intro point hmem
    obtain ⟨sample, hsample, value, hvalue, rfl⟩ := mem_column.mp hmem
    obtain ⟨⟨hne, hshort⟩, hgood⟩ := hvalues sample hsample s value hvalue
    refine ⟨⟨hne, hshort⟩, rfl, validateRawPoint_eq_none.mpr ⟨Or.inr rfl, ?_⟩⟩
    rw [validatePoint, if_neg (by simpa [String.isEmpty_iff] using hne),
      if_neg (not_lt.mpr hshort)]
    exact hgood
  obtain ⟨point, hmem⟩ := List.exists_mem_of_ne_nil _ hcolumn
  exact ⟨(hpoint point hmem).1, fun point hmem => (hpoint point hmem).2⟩

/-! ## The relation -/

/-- The pairs of the target and a source, as real numbers. -/
noncomputable def numberPairs (relation : RuntimeRelationConfig) (data : AlignedWindowData)
    (s : SequenceId) : List (ℝ × ℝ) :=
  (correlationPairs relation.targetSequenceId s data.samples).map fun pair =>
    ((pair.1 : ℝ), (pair.2 : ℝ))

/-- The data and the relation pass all checks. -/
def Accepted (projectId : ProjectId) (data : AlignedWindowData)
    (relation : RuntimeRelationConfig) : Prop :=
  validateAlignedWindowData projectId data = none ∧ data.samples ≠ [] ∧
    relationError relation = none

theorem sourceCorrelation_eq (relation : RuntimeRelationConfig) (data : AlignedWindowData)
    (source : RuntimeRelationSource) :
    sourceCorrelation Real.sqrt relation.targetSequenceId data.samples source =
      (pearsonCorrelation Real.sqrt (numberPairs relation data source.sourceSequenceId)).map
        fun coefficient =>
          { independentSequenceId := source.sourceSequenceId, coefficient := coefficient } := rfl

/-- There is a correlation when both sides vary. -/
theorem sourceCorrelation_isSome (relation : RuntimeRelationConfig) (data : AlignedWindowData)
    (source : RuntimeRelationSource) :
    (sourceCorrelation Real.sqrt relation.targetSequenceId data.samples source).isSome = true ↔
      Varies (numberPairs relation data source.sourceSequenceId) := by
  rw [sourceCorrelation_eq, Option.isSome_map, Option.isSome_iff_exists]
  exact ⟨fun ⟨c, hc⟩ => (pearsonCorrelation_eq.mp hc).1, fun h =>
    ⟨_, pearsonCorrelation_eq.mpr ⟨h, rfl⟩⟩⟩

/-- A usable column: all of its values are numbers. -/
theorem usable_column {projectId : ProjectId} {data : AlignedWindowData} {s : SequenceId} :
    usable (metricWindow projectId data) s = true ↔
      column projectId s data.samples ≠ [] ∧
        ∀ sample ∈ data.samples, ∀ value, sample.values.find s = some value →
          (numericValue value).isSome = true := by
  have hnumbers : ∀ points, (numericValues points).isSome = true ↔
      ∀ point ∈ points, (numericValue point.value).isSome = true := by
    intro points
    induction points with
    | nil => exact iff_of_true rfl fun _ h => absurd h List.not_mem_nil
    | cons point points ih =>
        rw [numericValues, List.forall_mem_cons, ← ih]
        cases numericValue point.value with
        | none => simp
        | some value => simp
  rw [usable, metricWindow_find]
  by_cases hcolumn : column projectId s data.samples = []
  · rw [if_pos hcolumn]
    exact iff_of_false Bool.false_ne_true fun h => h.1 hcolumn
  · rw [if_neg hcolumn, Option.getD_some, Bool.and_eq_true, hnumbers]
    have hsome : (!(column projectId s data.samples).isEmpty) = true := by
      simpa using hcolumn
    refine and_congr (iff_of_true hsome hcolumn) ⟨fun hall sample hsample value hvalue => ?_, ?_⟩
    · exact hall _ (mem_column.mpr ⟨sample, hsample, value, hvalue, rfl⟩)
    · intro hall point hmem
      obtain ⟨sample, hsample, value, hvalue, rfl⟩ := mem_column.mp hmem
      exact hall sample hsample value hvalue

/-- The columns that hold a value that is not a number. -/
def mixedColumns (projectId : ProjectId) (data : AlignedWindowData) : Nat :=
  (metricWindow projectId data).sequenceValues.keys.countP fun s =>
    !usable (metricWindow projectId data) s

/-- The failures of the metrics. -/
theorem metrics_failedCount {projectId : ProjectId} {data : AlignedWindowData}
    (hvalid : validateAlignedWindowData projectId data = none) :
    (computeBasicStatistics Real.sqrt projectId
        (metricWindow projectId data)).operation.failedCount = mixedColumns projectId data := by
  obtain ⟨⟨-, -, hfailed⟩, -⟩ := computeBasicStatistics_valid (metricWindow_valid hvalid)
  obtain ⟨-, -, -, hcounted⟩ :=
    statisticsOperation_spec (tallyOf Real.sqrt (metricWindow projectId data))
  rw [hfailed, hcounted, (tallyOf_spec (metricWindow projectId data)).2.1]
  rfl

/-- No column is mixed when all values are numbers. -/
theorem mixedColumns_eq_zero {projectId : ProjectId} {data : AlignedWindowData} :
    mixedColumns projectId data = 0 ↔
      ∀ sample ∈ data.samples, ∀ s value, sample.values.find s = some value →
        (numericValue value).isSome = true := by
  rw [mixedColumns, List.countP_eq_zero]
  constructor
  · intro hall sample hsample s value hvalue
    have hcolumn : column projectId s data.samples ≠ [] :=
      List.ne_nil_of_mem (mem_column.mpr ⟨sample, hsample, value, hvalue, rfl⟩)
    have hkey : s ∈ (metricWindow projectId data).sequenceValues.keys := by
      rw [(metricWindow projectId data).sequenceValues.mem_keys, metricWindow_find,
        if_neg hcolumn]
      rfl
    have husable : usable (metricWindow projectId data) s = true := by simpa using hall s hkey
    exact (usable_column.mp husable).2 sample hsample value hvalue
  · intro hall s hkey
    rw [(metricWindow projectId data).sequenceValues.mem_keys, metricWindow_find] at hkey
    have hcolumn : column projectId s data.samples ≠ [] := by
      intro hnil
      rw [if_pos hnil] at hkey
      cases hkey
    have husable : usable (metricWindow projectId data) s = true :=
      usable_column.mpr ⟨hcolumn, fun sample hsample value => hall sample hsample s value⟩
    simp [husable]

/-- The answer to accepted data and relation. -/
theorem computeAligned_accepted {projectId : ProjectId} {data : AlignedWindowData}
    {relation : RuntimeRelationConfig} (h : Accepted projectId data relation) :
    computeAlignedStatistics Real.sqrt projectId data relation =
      { computeBasicStatistics Real.sqrt projectId (metricWindow projectId data) with
        operation :=
          correlationOperation
            (relation.sources.filterMap
              (sourceCorrelation Real.sqrt relation.targetSequenceId data.samples)).length
            (relation.sources.countP fun source =>
              (sourceCorrelation Real.sqrt relation.targetSequenceId data.samples source).isNone)
            (mixedColumns projectId data)
        correlationVector :=
          some
            { dependentSequenceId := relation.targetSequenceId
              correlations :=
                relation.sources.filterMap
                  (sourceCorrelation Real.sqrt relation.targetSequenceId data.samples) } } := by
  obtain ⟨hvalid, hsamples, hrelation⟩ := h
  rw [computeAlignedStatistics, hvalid]
  simp only [hrelation]
  rw [if_neg (not_lt.mpr (validateAligned_values hvalid).1),
    if_neg fun hempty => hsamples (List.isEmpty_iff.mp hempty), metrics_failedCount hvalid]

/-- The result of the counts of the sources. -/
theorem correlationOperation_spec (successful failed mixed : Nat) :
    (isSuccessful (correlationOperation successful failed mixed).code = true ↔ successful ≠ 0) ∧
      ((correlationOperation successful failed mixed).code = .ok ↔
        successful ≠ 0 ∧ failed = 0 ∧ mixed = 0) ∧
      (correlationOperation successful failed mixed).successCount = successful ∧
      (correlationOperation successful failed mixed).failedCount =
        failed + if successful = 0 then 0 else mixed := by
  rw [correlationOperation]
  by_cases hzero : successful = 0
  · simp [hzero, isSuccessful]
  · by_cases hall : failed = 0 ∧ mixed = 0
    · simp [hzero, hall, isSuccessful, okResult]
    · have hsome : failed ≠ 0 ∨ mixed ≠ 0 := not_and_or.mp hall
      simp [hzero, hall, hsome, isSuccessful]

/-- An error of a relation is not a success. -/
theorem relationError_code {relation : RuntimeRelationConfig} {error : OperationResult}
    (h : relationError relation = some error) : isSuccessful error.code = false := by
  rw [relationError] at h
  split at h
  · obtain rfl := Option.some.inj h
    rfl
  split at h
  · obtain rfl := Option.some.inj h
    rfl
  split at h
  · obtain rfl := Option.some.inj h
    rfl
  · obtain ⟨message, -, rfl⟩ := Option.map_eq_some_iff.mp h
    rfl

/-- A relation without error has a source. -/
theorem relationError_sources {relation : RuntimeRelationConfig}
    (h : relationError relation = none) : relation.sources ≠ [] := by
  intro hnil
  rw [relationError, hnil] at h
  split at h
  · cases h
  split at h
  · cases h
  rename_i hsome
  exact hsome (by simp)

/-- What is not accepted is answered with an error and no vector. -/
theorem computeAligned_rejected {projectId : ProjectId} {data : AlignedWindowData}
    {relation : RuntimeRelationConfig} (h : ¬ Accepted projectId data relation) :
    isSuccessful (computeAlignedStatistics Real.sqrt projectId data relation).operation.code =
        false ∧
      (computeAlignedStatistics Real.sqrt projectId data relation).correlationVector = none := by
  rw [computeAlignedStatistics]
  cases hvalid : validateAlignedWindowData projectId data with
  | some error => exact ⟨rfl, rfl⟩
  | none =>
      simp only
      split
      · exact ⟨rfl, rfl⟩
      split
      · exact ⟨rfl, rfl⟩
      rename_i hsamples
      cases hrelation : relationError relation with
      | some error => exact ⟨relationError_code hrelation, rfl⟩
      | none =>
          refine absurd ⟨hvalid, fun hnil => hsamples ?_, hrelation⟩ h
          rw [hnil]
          rfl

/-- What is kept, beside what it is kept for. -/
theorem forall₂_filterMap {α β : Type} {p : α → Bool} {f : α → Option β} {R : α → β → Prop}
    (hkeep : ∀ x, p x = (f x).isSome) (hR : ∀ x y, f x = some y → R x y) (xs : List α) :
    List.Forall₂ R (xs.filter p) (xs.filterMap f) := by
  induction xs with
  | nil => exact .nil
  | cons x xs ih =>
      cases hx : f x with
      | none =>
          rw [List.filterMap_cons_none hx, List.filter_cons_of_neg (by rw [hkeep, hx]; simp)]
          exact ih
      | some y =>
          rw [List.filterMap_cons_some hx, List.filter_cons_of_pos (by rw [hkeep, hx]; rfl)]
          exact .cons (hR x y hx) ih

/-- The metrics of the columns. -/
theorem metrics_described {projectId : ProjectId} {data : AlignedWindowData}
    (hvalid : validateAlignedWindowData projectId data = none) {s : SequenceId}
    (hcolumn : column projectId s data.samples ≠ []) :
    ∃ metrics, (computeBasicStatistics Real.sqrt projectId
        (metricWindow projectId data)).sequenceMetrics.find s = some metrics ∧
      Described (column projectId s data.samples) metrics := by
  obtain ⟨-, hmetrics⟩ := computeBasicStatistics_valid (metricWindow_valid hvalid)
  have hkey : s ∈ (metricWindow projectId data).sequenceValues.keys := by
    rw [(metricWindow projectId data).sequenceValues.mem_keys, metricWindow_find,
      if_neg hcolumn]
    rfl
  refine ⟨_, ?_, metricsOf_described hcolumn⟩
  rw [hmetrics, (tallyOf_spec (metricWindow projectId data)).2.2, if_pos hkey, filed,
    metricWindow_find, if_neg hcolumn, Option.getD_some]
  exact if_neg fun hempty => hcolumn (List.isEmpty_iff.mp hempty)

open Classical in
/-- **Correlations are exact.**  Data and a relation that pass the checks are answered with
    the coefficients of exactly those sources whose pairs vary, in their order, and with the
    metrics of every column; the result is a success exactly when there is such a source,
    and `OK` exactly when all are and every value is a number; each source is counted once,
    and the columns with other values are failures beside a source that succeeds. -/
theorem correlations_exact (projectId : ProjectId) (data : AlignedWindowData)
    (relation : RuntimeRelationConfig) :
    let result := computeAlignedStatistics Real.sqrt projectId data relation
    (isSuccessful result.operation.code = true ↔ Accepted projectId data relation ∧
        ∃ source ∈ relation.sources, Varies (numberPairs relation data source.sourceSequenceId)) ∧
      (result.operation.code = .ok ↔ Accepted projectId data relation ∧
        (∀ source ∈ relation.sources,
          Varies (numberPairs relation data source.sourceSequenceId)) ∧
        ∀ sample ∈ data.samples, ∀ s value, sample.values.find s = some value →
          (numericValue value).isSome = true) ∧
      (Accepted projectId data relation →
        (∃ correlations, result.correlationVector =
            some { dependentSequenceId := relation.targetSequenceId, correlations := correlations } ∧
          List.Forall₂
            (fun source entry => entry.independentSequenceId = source.sourceSequenceId ∧
              Coefficient (numberPairs relation data source.sourceSequenceId) entry.coefficient)
            (relation.sources.filter fun source =>
              Varies (numberPairs relation data source.sourceSequenceId))
            correlations) ∧
        ∀ s, column projectId s data.samples ≠ [] →
          ∃ metrics, result.sequenceMetrics.find s = some metrics ∧
            Described (column projectId s data.samples) metrics) ∧
      (Accepted projectId data relation →
        result.operation.successCount = relation.sources.countP (fun source =>
            Varies (numberPairs relation data source.sourceSequenceId)) ∧
          result.operation.failedCount =
            relation.sources.countP (fun source =>
                ¬ Varies (numberPairs relation data source.sourceSequenceId)) +
              if ∃ source ∈ relation.sources,
                  Varies (numberPairs relation data source.sourceSequenceId)
                then mixedColumns projectId data else 0) ∧
      (¬ Accepted projectId data relation → result.correlationVector = none) := by
  by_cases haccepted : Accepted projectId data relation
  · obtain ⟨hsome, hok, hsuccess, hfailed⟩ := correlationOperation_spec
      (relation.sources.filterMap
        (sourceCorrelation Real.sqrt relation.targetSequenceId data.samples)).length
      (relation.sources.countP fun source =>
        (sourceCorrelation Real.sqrt relation.targetSequenceId data.samples source).isNone)
      (mixedColumns projectId data)
    have hany : (relation.sources.filterMap
        (sourceCorrelation Real.sqrt relation.targetSequenceId data.samples)).length ≠ 0 ↔
          ∃ source ∈ relation.sources,
            Varies (numberPairs relation data source.sourceSequenceId) := by
      rw [List.length_filterMap_eq_countP, ← Nat.pos_iff_ne_zero, List.countP_pos_iff]
      exact exists_congr fun source => and_congr_right fun _ =>
        sourceCorrelation_isSome relation data source
    have hcorrelated : (relation.sources.filterMap
        (sourceCorrelation Real.sqrt relation.targetSequenceId data.samples)).length =
          relation.sources.countP fun source =>
            Varies (numberPairs relation data source.sourceSequenceId) := by
      rw [List.length_filterMap_eq_countP]
      refine List.countP_congr fun source _ => ?_
      rw [decide_eq_true_iff]
      exact sourceCorrelation_isSome relation data source
    have huncorrelated : (relation.sources.countP fun source =>
        (sourceCorrelation Real.sqrt relation.targetSequenceId data.samples source).isNone) =
          relation.sources.countP fun source =>
            ¬ Varies (numberPairs relation data source.sourceSequenceId) := by
      refine List.countP_congr fun source _ => ?_
      rw [decide_eq_true_iff, ← sourceCorrelation_isSome]
      cases sourceCorrelation Real.sqrt relation.targetSequenceId data.samples source <;> simp
    have hall : (relation.sources.countP fun source =>
        (sourceCorrelation Real.sqrt relation.targetSequenceId data.samples source).isNone) = 0 ↔
          ∀ source ∈ relation.sources,
            Varies (numberPairs relation data source.sourceSequenceId) := by
      rw [List.countP_eq_zero]
      refine forall₂_congr fun source _ => ?_
      rw [← sourceCorrelation_isSome]
      cases sourceCorrelation Real.sqrt relation.targetSequenceId data.samples source <;> simp
    rw [computeAligned_accepted haccepted]
    refine ⟨?_, ?_, fun _ => ⟨⟨_, rfl, ?_⟩, fun s hcolumn => ?_⟩,
      fun _ => ⟨hsuccess.trans hcorrelated, hfailed.trans ?_⟩, fun h => absurd haccepted h⟩
    · rw [hsome, hany]
      exact ⟨fun h => ⟨haccepted, h⟩, fun h => h.2⟩
    · rw [hok, hany, hall, mixedColumns_eq_zero]
      refine ⟨fun h => ⟨haccepted, h.2⟩, fun h => ⟨?_, h.2⟩⟩
      obtain ⟨source, hsource⟩ := List.exists_mem_of_ne_nil _
        (relationError_sources haccepted.2.2)
      exact ⟨source, hsource, h.2.1 source hsource⟩
    · refine forall₂_filterMap (fun source => ?_) (fun source entry hentry => ?_) _
      · rw [Bool.eq_iff_iff, decide_eq_true_iff, sourceCorrelation_isSome]
      · rw [sourceCorrelation_eq, Option.map_eq_some_iff] at hentry
        obtain ⟨c, hc, rfl⟩ := hentry
        exact ⟨rfl, coefficient_of_pearson hc⟩
    · exact metrics_described haccepted.1 hcolumn
    · rw [huncorrelated]
      congr 1
      by_cases hvaries : ∃ source ∈ relation.sources,
          Varies (numberPairs relation data source.sourceSequenceId)
      · rw [if_pos hvaries, if_neg (hany.mpr hvaries)]
      · rw [if_neg hvaries, if_pos (not_not.mp (mt hany.mp hvaries))]
  · obtain ⟨hcode, hvector⟩ := computeAligned_rejected haccepted
    refine ⟨iff_of_false ?_ fun h => haccepted h.1, iff_of_false ?_ fun h => haccepted h.1,
      fun h => absurd h haccepted, fun h => absurd h haccepted, fun _ => hvector⟩
    · rw [hcode]
      exact Bool.false_ne_true
    · intro hok
      rw [hok] at hcode
      cases hcode

end RelationStatistics
