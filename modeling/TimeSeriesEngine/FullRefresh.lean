import TimeSeriesEngine.DerivedStep

/-!
# A full refresh

Without an update every enabled formula is computed from one query of the default live
window and replaces its sequence, and every disabled one clears it:

* `livePoints` — what the query returns of a source;
* `fullItems` — the query, and the items made from it;
* `full_written` — what an enabled formula leaves in its sequence;
* `full_cleared` — and what a disabled one leaves.
-/

namespace FullRefresh

open TseTypes KeyedTable OrderedSeries HotWindow WindowContent WindowUpdate WindowRefinement Registry
open UpdateRange DerivedSeries FormulaValue IngestFrame DerivedPublish DerivedPatch DerivedStep

/-! ## The live window -/

theorem windowStart_le {watermark size : Int} (hrange : int64Min ≤ watermark) (hsize : 0 < size) :
    windowStart watermark size ≤ watermark := by
  rw [windowStart_eq, keepFrom]
  exact max_le hrange (Int.sub_le_self _ hsize.le)

theorem windowStart_mono {watermark watermark' size : Int} (h : watermark ≤ watermark') :
    windowStart watermark size ≤ windowStart watermark' size := by
  rw [windowStart_eq, windowStart_eq, keepFrom, keepFrom]
  exact max_le_max_left _ (Int.sub_le_sub_right h size)

theorem le_liveEnd (watermark : Timestamp) : watermark ≤ liveEnd watermark := by
  rw [liveEnd]
  split
  · exact le_refl _
  · exact le_of_lt (Int.lt_add_one_of_le (le_refl _))

/-- What a full refresh relies on in the window service. -/
structure Ready (p : ProjectId) (service : WindowService) : Prop where
  valid : AllValid service.sequenceWindows
  size : 0 < windowSize p service
  inRange : ∀ watermark, service.watermarks.find (effectiveProject p) = some watermark →
    int64Min ≤ watermark

/-- The points of a sequence in the default live window; before the first batch there
    is no window. -/
def livePoints (p : ProjectId) (service : WindowService) (s : SequenceId) :
    List RawTimeseriesPoint :=
  match service.watermarks.find (effectiveProject p) with
  | none => []
  | some watermark =>
      livePart (liveStart watermark (windowSize p service)) (liveEnd watermark)
        (retained p s service)

variable {capacity : Nat} {p : ProjectId} {registry : RuntimeConfigRegistry}
  {service : WindowService} {state : DerivedState} {config : RuntimeDerivedSeriesConfig}

/-- The live points, with a watermark. -/
theorem livePoints_some {watermark : Timestamp}
    (hw : service.watermarks.find (effectiveProject p) = some watermark) (s : SequenceId) :
    livePoints p service s =
      livePart (liveStart watermark (windowSize p service)) (liveEnd watermark)
        (retained p s service) := by
  rw [livePoints]
  simp only [hw]

/-- The live window begins inside what the service keeps. -/
theorem livePoints_kept {watermark : Timestamp}
    (hw : service.watermarks.find (effectiveProject p) = some watermark) {s : SequenceId}
    {q : RawTimeseriesPoint} (hq : q ∈ livePoints p service s) :
    windowStart watermark (windowSize p service) ≤ q.time := by
  rw [livePoints_some hw] at hq
  have hinside := (Bool.and_eq_true_iff.mp (List.mem_filter.mp hq).2).1
  exact le_trans (windowStart_mono (le_liveEnd watermark)) (of_decide_eq_true hinside)

/-! ## The query and the items -/

theorem mem_fullConfigs :
    config ∈ fullConfigs p registry none (allDerivedSeries p registry) ↔
      config ∈ allDerivedSeries p registry ∧ config.enabled = true := by
  rw [fullConfigs, List.mem_filter, List.mem_filter, selected, Bool.and_true]
  exact and_iff_left rfl

/-- Before the first batch a query returns an empty window. -/
theorem query_empty {ids : List SequenceId} (hids : ids ≠ []) (hne : ∀ s ∈ ids, s ≠ "")
    (hw : service.watermarks.find (effectiveProject p) = none) :
    queryFor capacity p ids none service =
      .ok (some
        { operation := okResult 0 "window is empty"
          projectId := effectiveProject p
          data := { projectId := effectiveProject p } }) := by
  have hnonempty : ids.isEmpty = false := by simpa using hids
  have hfound := @findSequences_ok (effectiveProject p)
    "window query sequence_id must not be empty" service ids hne
  simp only [queryFor, queryWindowData, buildQuery, hnonempty, hfound, hw, Bool.false_eq_true,
    if_false, Option.any_none]

/-- The window of a full refresh holds the live points of the sources. -/
theorem fullQuery_spec (hset : AcceptedSet p registry) (hready : Ready p service)
    (hsome : ∃ config ∈ allDerivedSeries p registry, config.enabled = true) :
    ∃ window, queryFor capacity p
        (sourceUnion (fullConfigs p registry none (allDerivedSeries p registry))) none
        service = .ok (some window) ∧
      window.operation.code = .ok ∧
      (∀ s, Ascending RawTimeseriesPoint.time ((window.data.sequenceValues.find s).getD [])) ∧
      ∀ config ∈ allDerivedSeries p registry, config.enabled = true → ∀ s ∈ sourcesFor config,
        (window.data.sequenceValues.find s).getD [] = livePoints p service s := by
  obtain ⟨config, hconfig, henabled⟩ := hsome
  have hin : ∀ config ∈ fullConfigs p registry none (allDerivedSeries p registry),
      config ∈ allDerivedSeries p registry := fun config hin => (mem_fullConfigs.mp hin).1
  have hne : fullConfigs p registry none (allDerivedSeries p registry) ≠ [] :=
    List.ne_nil_of_mem (mem_fullConfigs.mpr ⟨hconfig, henabled⟩)
  cases hw : service.watermarks.find (effectiveProject p) with
  | none =>
      obtain ⟨hunion, hnonempty⟩ := sourceUnion_accepted hset hin hne
      refine ⟨_, query_empty hunion hnonempty hw, rfl, fun s => ascending_nil _,
        fun config hconfig henabled s hs => ?_⟩
      rw [livePoints]
      simp only [hw]
      rfl
  | some watermark =>
      have hlive : liveStart watermark (windowSize p service) ≤ liveEnd watermark :=
        windowStart_le (le_trans (hready.inRange watermark hw) (le_liveEnd watermark)) hready.size
      obtain ⟨window, hwindow, hcode, hascending, hslices⟩ := queryFor_spec hset hin hne
        hready.valid hw hready.size none (fun hsome => by cases hsome) hlive
      refine ⟨window, hwindow, hcode, hascending, fun config hconfig henabled s hs => ?_⟩
      rw [hslices config (mem_fullConfigs.mpr ⟨hconfig, henabled⟩) s hs, livePoints_some hw,
        livePart]
      exact sliceOf_range (ascending_retained hready.valid p s) _ _

/-- The items of a full refresh: every enabled formula has its window. -/
theorem fullItems (capacity : Nat) (hset : AcceptedSet p registry) (hready : Ready p service) :
    ∃ full, computeItems capacity p registry none service =
        .ok ((allDerivedSeries p registry).map (computeOne p registry none none full)) ∧
      ∀ config ∈ allDerivedSeries p registry, config.enabled = true →
        ∃ window, full = some window ∧ window.operation.code = .ok ∧
          (∀ s, Ascending RawTimeseriesPoint.time
            ((window.data.sequenceValues.find s).getD [])) ∧
          ∀ s ∈ sourcesFor config,
            (window.data.sequenceValues.find s).getD [] = livePoints p service s := by
  have hnone : incrementalConfigs p registry none (allDerivedSeries p registry) = [] := by
    rw [incrementalConfigs]
    exact List.filterMap_eq_nil_iff.mpr fun config _ => rfl
  have hincremental : queryFor capacity p
      (sourceUnion ((incrementalConfigs p registry none (allDerivedSeries p registry)).map
        Prod.fst))
      (unionRange ((incrementalConfigs p registry none (allDerivedSeries p registry)).map
        Prod.snd)) service = .ok none := by
    rw [hnone]
    rfl
  -- without an enabled config nothing is queried
  by_cases hsome : ∃ config ∈ allDerivedSeries p registry, config.enabled = true
  · obtain ⟨window, hquery, hcode, hascending, hslices⟩ :=
      @fullQuery_spec capacity p registry service hset hready hsome
    exact ⟨some window, computeItems_eq hincremental hquery, fun config hconfig henabled =>
      ⟨window, rfl, hcode, hascending, hslices config hconfig henabled⟩⟩
  · have hnil : fullConfigs p registry none (allDerivedSeries p registry) = [] := by
      refine List.eq_nil_iff_forall_not_mem.mpr fun config hin => hsome ?_
      exact ⟨config, mem_fullConfigs.mp hin⟩
    have hquery : queryFor capacity p
        (sourceUnion (fullConfigs p registry none (allDerivedSeries p registry))) none
        service = .ok none := by
      rw [hnil]
      rfl
    exact ⟨none, computeItems_eq hincremental hquery, fun config hconfig henabled =>
      absurd ⟨config, hconfig, henabled⟩ hsome⟩

/-- A full refresh as writes of its items. -/
theorem fullyRefreshed_window {full : Option WindowQueryResult}
    (hitems : computeItems capacity p registry none state.window =
      .ok ((allDerivedSeries p registry).map (computeOne p registry none none full))) :
    (fullyRefreshed capacity registry p state).window =
      ((allDerivedSeries p registry).map (computeOne p registry none none full)).foldl
        (fun window item => itemWrite p item window) state.window := by
  rw [fullyRefreshed_of_items hitems]
  refine publishAll_window p _ fun result hresult => ?_
  cases hresult

/-- **A full refresh of accepted formulas throws nothing.** -/
theorem refreshInternal_ok (capacity : Nat) (hset : AcceptedSet p registry)
    (hready : Ready p state.window) :
    ∃ result, refreshInternal capacity p registry none state =
      .ok (fullyRefreshed capacity registry p state, result) := by
  obtain ⟨full, hitems, -⟩ := fullItems capacity hset hready
  refine ⟨refreshResult (publishAll p none ((allDerivedSeries p registry).map
    (computeOne p registry none none full)) state).2, ?_⟩
  rw [fullyRefreshed_of_items hitems]
  simp only [refreshInternal, hitems]

/-! ## What a formula leaves -/

/-- Writing a full item replaces the sequence. -/
theorem itemWrite_replace {data : WindowData} (hid : config.derivedSequenceId ≠ "")
    (service : WindowService) :
    itemWrite p (computeFrom p registry none data config) service =
      (replaceDerivedSequence p config.derivedSequenceId
        (computeFrom p registry none data config).points service).1 := by
  have hempty : config.derivedSequenceId.isEmpty = false := by
    simpa [String.isEmpty_iff] using hid
  have hwritten : ¬ ((computeFrom p registry none data config).skip ||
      !(computeFrom p registry none data config).publish ||
      (computeFrom p registry none data config).sequenceId.isEmpty) = true := by
    show ¬ (false || !true || config.derivedSequenceId.isEmpty) = true
    rw [hempty]
    exact Bool.false_ne_true
  rw [itemWrite, if_neg hwritten]
  rfl

/-- A disabled series is cleared. -/
theorem itemWrite_clear {full : Option WindowQueryResult} (hid : config.derivedSequenceId ≠ "")
    (hdisabled : config.enabled = false) (service : WindowService) :
    itemWrite p (computeOne p registry none none full config) service =
      (replaceDerivedSequence p config.derivedSequenceId { points := [] } service).1 := by
  have hempty : config.derivedSequenceId.isEmpty = false := by
    simpa [String.isEmpty_iff] using hid
  have hitem : computeOne p registry none none full config =
      { sequenceId := config.derivedSequenceId, publish := true, clearOnly := true } := by
    simp [computeOne, hdisabled]
  simp only [hitem, itemWrite, hempty, Bool.not_true, Bool.or_self, Bool.false_eq_true, if_false,
    if_true]

/-- A sequence that its item replaces holds what the item brings, whatever it held before. -/
theorem replaced_retained (hset : AcceptedSet p registry) {full : Option WindowQueryResult}
    (hconfig : config ∈ allDerivedSeries p registry) (hv : AllValid service.sequenceWindows)
    {points : List RawTimeseriesPoint}
    (hitem : ∀ service, itemWrite p (computeOne p registry none none full config) service =
      (replaceDerivedSequence p config.derivedSequenceId { points := points } service).1)
    (hp : DerivedPoints p config points) (hasc : Ascending RawTimeseriesPoint.time points)
    (hlive : ∀ watermark, service.watermarks.find (effectiveProject p) = some watermark →
      ∀ q ∈ points, windowStart watermark (windowSize p service) ≤ q.time) :
    let after := ((allDerivedSeries p registry).map
      (computeOne p registry none none full)).foldl
        (fun window item => itemWrite p item window) service
    (points = [] ∨ Storable config.derivedSequenceId →
      retained p config.derivedSequenceId after = points) ∧
    (PrunedAt p (scopedSequenceKey p config.derivedSequenceId) service →
      retained p config.derivedSequenceId service = [] →
        ¬ Storable config.derivedSequenceId →
          retained p config.derivedSequenceId after = []) := by
  intro after
  obtain ⟨hid, -, -, -⟩ := accepted_sources (hset.accepted config hconfig)
  obtain ⟨middle, hvm, hwatermarks, hsizes, hsame, hown⟩ := own_item hset none none full
    hconfig hv
  have hsize : windowSize p middle = windowSize p service := by
    rw [windowSize, windowSize, hsizes]
  rw [hitem] at hown
  obtain ⟨hstored, hnothing⟩ := replace_retained hvm hid hp hasc fun watermark hw => by
    rw [hwatermarks] at hw
    rw [hsize]
    exact hlive watermark hw
  have hwrites := replaceDerived_writes p config.derivedSequenceId { points := points } middle
  -- the items behind this one only evict, and there is nothing to evict
  have hkept : ∀ rest : List RawTimeseriesPoint,
      retained p config.derivedSequenceId (replaceDerivedSequence p config.derivedSequenceId
        { points := points } middle).1 = rest → (∀ q ∈ rest, q ∈ points) →
      retained p config.derivedSequenceId after = rest := by
    intro rest hrest hsub
    rw [← hrest]
    refine hown fun _ watermark hw q hq => ?_
    rw [hwrites.watermarks, hwatermarks] at hw
    rw [hwrites.windowSize, hsize]
    have hq' : q ∈ retained p config.derivedSequenceId (replaceDerivedSequence p
      config.derivedSequenceId { points := points } middle).1 := hq
    rw [hrest] at hq'
    exact hlive watermark hw q (hsub q hq')
  refine ⟨fun hstore => hkept points (hstored hstore) fun q hq => hq,
    fun hpruned hbefore hstore => hkept [] (hnothing ?_ hstore) fun q hq => by cases hq⟩
  rw [hsame hpruned]
  exact hbefore

/-- **An enabled formula leaves what the live points of its sources derive.** -/
theorem full_written (capacity : Nat) (hset : AcceptedSet p registry)
    (hready : Ready p state.window) (hconfig : config ∈ allDerivedSeries p registry)
    (henabled : config.enabled = true) :
    ∃ points, Ascending RawTimeseriesPoint.time points ∧
      (∀ q, q ∈ points ↔ ∃ t v,
        Derives config (livePoints p state.window) t v ∧ q = derivedPoint p config t v) ∧
      (Storable config.derivedSequenceId →
        retained p config.derivedSequenceId (fullyRefreshed capacity registry p state).window =
          points) ∧
      (PrunedAt p (scopedSequenceKey p config.derivedSequenceId) state.window →
        retained p config.derivedSequenceId state.window = [] →
          ¬ Storable config.derivedSequenceId →
            retained p config.derivedSequenceId
              (fullyRefreshed capacity registry p state).window = []) := by
  obtain ⟨hid, -, -, -⟩ := accepted_sources (hset.accepted config hconfig)
  obtain ⟨full, hitems, hwindows⟩ := fullItems capacity hset hready
  obtain ⟨window, hfull, hcode, hascending, hslices⟩ := hwindows config hconfig henabled
  obtain ⟨hasc, hpoints⟩ := computeFrom_points (hset.numeric hconfig) none hascending
  have hderived : ∀ q, q ∈ (computeFrom p registry none window.data config).points.points ↔
      ∃ t v, Derives config (livePoints p state.window) t v ∧ q = derivedPoint p config t v := by
    intro q
    rw [hpoints]
    refine exists_congr fun t => exists_congr fun v => ?_
    rw [derives_congr hslices]
    exact and_iff_right nofun
  have hdp : DerivedPoints p config
      (computeFrom p registry none window.data config).points.points := by
    intro q hq
    obtain ⟨t, v, -, rfl⟩ := (hderived q).mp hq
    exact ⟨t, v, rfl⟩
  -- a derived point stands at the time of a source point, which is live
  have hlive : ∀ watermark,
      state.window.watermarks.find (effectiveProject p) = some watermark →
        ∀ q ∈ (computeFrom p registry none window.data config).points.points,
          windowStart watermark (windowSize p state.window) ≤ q.time := by
    intro watermark hw q hq
    obtain ⟨t, v, ⟨⟨s, -, x, hx, hxt⟩, -⟩, rfl⟩ := (hderived q).mp hq
    obtain ⟨q', hq', hqt⟩ := exists_rawPoint hx
    show _ ≤ t
    rw [← hxt, ← hqt]
    exact livePoints_kept hw hq'
  obtain ⟨hstored, hnothing⟩ := replaced_retained hset hconfig hready.valid
    (fun service => by
      rw [computeOne_full henabled hfull hcode]
      exact itemWrite_replace hid service)
    hdp hasc hlive
  rw [fullyRefreshed_window hitems]
  exact ⟨_, hasc, hderived, fun hstore => hstored (Or.inr hstore), hnothing⟩

/-- **A disabled formula leaves nothing.** -/
theorem full_cleared (capacity : Nat) (hset : AcceptedSet p registry)
    (hready : Ready p state.window) (hconfig : config ∈ allDerivedSeries p registry)
    (hdisabled : config.enabled = false) :
    retained p config.derivedSequenceId (fullyRefreshed capacity registry p state).window = [] := by
  obtain ⟨hid, -, -, -⟩ := accepted_sources (hset.accepted config hconfig)
  obtain ⟨full, hitems, -⟩ := fullItems capacity hset hready
  obtain ⟨hstored, -⟩ := replaced_retained hset hconfig hready.valid
    (fun service => itemWrite_clear hid hdisabled service)
    (fun q hq => by cases hq) (ascending_nil _) fun _ _ q hq => by cases hq
  rw [fullyRefreshed_window hitems]
  exact hstored (Or.inl rfl)

end FullRefresh
