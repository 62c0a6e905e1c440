import TimeSeriesEngine.FullRefresh

/-!
# The incremental refresh against the full one

Where every enabled formula is derived from its sources, a full refresh leaves what the live
parts of the sources derive (`full_derived`).  After a run whose steps are covered the derived
sequences hold in the live window what a full refresh leaves there (`incremental_refresh_full`).
-/

namespace DerivedAgreement

open TseTypes KeyedTable OrderedSeries HotWindow WindowContent WindowUpdate WindowRefinement
open Registry UpdateRange DerivedSeries FormulaValue IngestFrame DerivedPublish DerivedPatch DerivedRefresh DerivedStep
open FullRefresh
open Transition

/-! ## The full refresh -/

section Full

variable {capacity : Nat} {p : ProjectId} {registry : RuntimeConfigRegistry} {state : DerivedState}
  {config : RuntimeDerivedSeriesConfig}

theorem ready_of_inv (hinv : RefreshInv p registry state) : Ready p state.window :=
  ⟨hinv.valid, hinv.size, hinv.inRange⟩

/-- **A full refresh** leaves what the live parts of the sources derive. -/
theorem full_derived (hset : AcceptedSet p registry) (hinv : RefreshInv p registry state)
    {watermark : Timestamp}
    (hw : state.window.watermarks.find (effectiveProject p) = some watermark)
    (hconfig : config ∈ allDerivedSeries p registry) (henabled : config.enabled = true) :
    Ascending RawTimeseriesPoint.time
        (retained p config.derivedSequenceId (fullyRefreshed capacity registry p state).window) ∧
      (Storable config.derivedSequenceId → ∀ q,
        q ∈ retained p config.derivedSequenceId
            (fullyRefreshed capacity registry p state).window ↔
          ∃ t v, Derives config (fun s =>
            livePart (liveStart watermark (windowSize p state.window)) (liveEnd watermark)
              (retained p s state.window)) t v ∧ q = derivedPoint p config t v) ∧
      (¬ Storable config.derivedSequenceId →
        retained p config.derivedSequenceId (fullyRefreshed capacity registry p state).window =
          []) := by
  obtain ⟨points, hasc, hpoints, hstored, hnothing⟩ :=
    full_written capacity hset (ready_of_inv hinv) hconfig henabled
  have hsources := hinv.derived config hconfig henabled
  have hpruned : PrunedAt p (scopedSequenceKey p config.derivedSequenceId) state.window := by
    have hinside : ∀ s ∈ sourcesFor config, ∀ q ∈ retained p s state.window,
        windowStart watermark (windowSize p state.window) ≤ q.time := fun s hs q hq =>
      hinv.pruned s (hset.numeric hconfig s hs) (hasPrefix_scopedSequenceKey p s) watermark hw q hq
    refine pruned_of_derived hsources hinside fun other hother => ?_
    rw [hw] at hother
    rw [Option.some.inj hother]
  have hlive : livePoints p state.window = fun s =>
      livePart (liveStart watermark (windowSize p state.window)) (liveEnd watermark)
        (retained p s state.window) := funext fun s => livePoints_some hw s
  rw [hlive] at hpoints
  by_cases hstore : Storable config.derivedSequenceId
  · rw [hstored hstore]
    exact ⟨hasc, fun _ => hpoints, fun hno => absurd hstore hno⟩
  · rw [hnothing hpruned (hsources.2 hstore) hstore]
    exact ⟨ascending_nil _, fun h => absurd h hstore, fun _ => rfl⟩

end Full

/-! ## Runs -/

section Runs

variable {capacity : Nat} {p : ProjectId} {registry : RuntimeConfigRegistry}

/-- A batch as a run of appends has it: 64-bit times, resolved points, plain appends. -/
structure Appends (p : ProjectId) (registry : RuntimeConfigRegistry) (state : DerivedState)
    (batch : TimeseriesBatch × Option Int) : Prop where
  times : TimesInRange batch.1
  resolved : Resolved p registry batch.1
  safe : SafeFor p registry state batch

theorem refreshInv_init : RefreshInv p registry {} where
  valid := allValid_empty
  size := show 0 < kDefaultWindowSizeMs by decide
  inRange := nofun
  counter := Nat.le_refl _
  pruned := fun s _ _ watermark hw => nomatch hw
  numeric := fun s _ q hq => nomatch hq
  derived := by
    intro config hconfig henabled
    refine ⟨fun _ q => ⟨fun hq => absurd hq List.not_mem_nil, ?_⟩, fun _ => rfl⟩
    rintro ⟨t, v, ⟨⟨s, -, x, hx, -⟩, -⟩, -⟩
    cases hx
  live := fun config _ _ watermark hw => nomatch hw

/-- A batch and its refresh keep the invariant. -/
theorem refreshInv_refreshStep (hset : AcceptedSet p registry) (hcap : 0 < capacity)
    (state : DerivedState) (batch : TimeseriesBatch × Option Int)
    (hstep : Appends p registry state batch ∧ Covered p registry state batch)
    (hinv : RefreshInv p registry state) :
    RefreshInv p registry (refreshStep capacity registry p state batch) := by
  obtain ⟨happends, hcovered⟩ := hstep
  by_cases hacc : Accepted p batch.1 batch.2
  · exact refreshInv_step hset hcap hinv hacc happends.times happends.resolved
      (happends.safe hacc) (hcovered hacc)
  · -- a rejected batch is refreshed by nothing
    obtain ⟨hsame, hcode⟩ := update_rejected hacc state.window
    have hstate : refreshStep capacity registry p state batch =
        { state with window := state.window } := by
      rw [refreshStep]
      simp only [hsame, refreshed, refreshInternal, hcode, Bool.not_false, if_true]
    rw [hstate]
    exact hinv

/-- In the live window a full refresh leaves what is there. -/
theorem agree_of_inv (hset : AcceptedSet p registry) {state : DerivedState}
    (hinv : RefreshInv p registry state) {config : RuntimeDerivedSeriesConfig}
    (hconfig : config ∈ allDerivedSeries p registry) (henabled : config.enabled = true)
    {watermark : Timestamp}
    (hw : state.window.watermarks.find (effectiveProject p) = some watermark) :
    livePart (liveStart watermark (windowSize p state.window)) (liveEnd watermark)
        (retained p config.derivedSequenceId state.window) =
      livePart (liveStart watermark (windowSize p state.window)) (liveEnd watermark)
        (retained p config.derivedSequenceId
          (fullyRefreshed capacity registry p state).window) := by
  obtain ⟨hascFull, hfull, hnothing⟩ := @full_derived capacity _ _ _ _ hset hinv
    watermark hw hconfig henabled
  have hderived := hinv.derived config hconfig henabled
  have hnum := hset.numeric hconfig
  have hasc : ∀ s, Ascending RawTimeseriesPoint.time (retained p s state.window) :=
    fun s => ascending_retained hinv.valid p s
  by_cases hstore : Storable config.derivedSequenceId
  · refine ascending_ext _ ((hasc _).filter _ _) (hascFull.filter _ _) fun q => ?_
    rw [livePart, livePart, List.mem_filter, List.mem_filter, hderived.1 hstore, hfull hstore]
    refine and_congr_left fun hlive => ?_
    obtain ⟨hstart, hend⟩ := Bool.and_eq_true_iff.mp hlive
    refine exists_congr fun t => exists_congr fun v => and_congr_left fun hq => ?_
    rw [hq] at hstart hend
    exact (derives_slices hasc (fun s hs => hinv.numeric s (hnum s hs))
      (fun s => livePart_slice (hasc s) _ _) fun hd =>
        hinv.live config hconfig henabled watermark hw t v (of_decide_eq_true hstart)
          (of_decide_eq_true hend) hd).symm
  · rw [hderived.2 hstore, hnothing hstore]

/-- **INCREMENTAL AND FULL REFRESH AGREE.**  After a run of batches each of which only
    appends, and at each of which the predecessors and the live window are enough, every
    derived sequence holds in the live window what a full refresh would leave there. -/
theorem incremental_refresh_full (hcap : 0 < capacity) (hset : AcceptedSet p registry)
    {batches : List (TimeseriesBatch × Option Int)}
    (happends : Admissible (refreshStep capacity registry p) (Appends p registry) {} batches)
    (hcovered : Admissible (refreshStep capacity registry p) (Covered p registry) {} batches)
    {config : RuntimeDerivedSeriesConfig} (hconfig : config ∈ allDerivedSeries p registry)
    (henabled : config.enabled = true) {watermark : Timestamp}
    (hw : (run (refreshStep capacity registry p) {} batches).window.watermarks.find
      (effectiveProject p) = some watermark) :
    livePart
        (liveStart watermark
          (windowSize p (run (refreshStep capacity registry p) {} batches).window))
        (liveEnd watermark)
        (retained p config.derivedSequenceId
          (run (refreshStep capacity registry p) {} batches).window) =
      livePart
        (liveStart watermark
          (windowSize p (run (refreshStep capacity registry p) {} batches).window))
        (liveEnd watermark)
        (retained p config.derivedSequenceId
          (fullyRefreshed capacity registry p
            (run (refreshStep capacity registry p) {} batches)).window) := by
  have hinv : RefreshInv p registry (run (refreshStep capacity registry p) {} batches) :=
    admissible_invariant (refreshInv_refreshStep hset hcap) refreshInv_init
      (happends.and hcovered)
  exact agree_of_inv hset hinv hconfig henabled hw

end Runs

/-! ## Two sources -/

instance (data : TimeseriesBatch) : Decidable (TimesInRange data) :=
  inferInstanceAs (Decidable (∀ q ∈ data.points, int64Min ≤ q.time ∧ q.time ≤ int64Max))

instance (p : ProjectId) (registry : RuntimeConfigRegistry) (data : TimeseriesBatch) :
    Decidable (Resolved p registry data) :=
  inferInstanceAs (Decidable (∀ q ∈ data.points, ∃ config ∈ findInstance p q.sequenceId registry,
    (continuousNumeric config = true → (numericValue q.value).isSome = true)))

instance (p : ProjectId) (registry : RuntimeConfigRegistry) (update : WindowUpdateResult) :
    Decidable (SafeSources p registry update) :=
  inferInstanceAs (Decidable (∀ config ∈ allDerivedSeries p registry, config.enabled = true →
    ∀ s ∈ sourcesFor config, s ∈ update.changedSequenceIds →
      (sequenceUpdateOf s update).incrementalSafe = true))

/-- An instance whose points are numbers. -/
def continuousInstance (s : SequenceId) : RuntimeInstanceConfig where
  sequenceId := s
  dataSourceId := "x"
  externalSequenceId := s
  dataType := "double"
  seriesKind := .continuous
  projectId := "p"

/-- The sum of two instances. -/
def sumOfBoth : RuntimeDerivedSeriesConfig where
  derivedSequenceId := "sum"
  enabled := true
  formula := .linear ⟨[⟨"fast", .finite 1⟩, ⟨"slow", .finite 1⟩], .finite 0⟩
  projectId := "p"

/-- The sum of two continuous sequences. -/
def twoSources : RuntimeConfigRegistry where
  instanceConfigs := put (scopedKey "p" "fast") (continuousInstance "fast")
    (put (scopedKey "p" "slow") (continuousInstance "slow") KeyedTable.empty)
  derivedSeries := put (scopedKey "p" "sum") sumOfBoth KeyedTable.empty

/-- The sample series are accepted. -/
theorem twoSources_accepted : AcceptedSet "p" twoSources where
  filed := by
    refine ⟨by decide +kernel, fun s config hfind => ?_⟩
    have hfind' : twoSources.instanceConfigs.find (scopedKey "p" s) = some config := hfind
    rw [twoSources, find_put, find_put] at hfind'
    split at hfind'
    · rename_i hkey
      rw [← Option.some.inj hfind', append_right_inj_string hkey]
      rfl
    · split at hfind'
      · rename_i hkey
        rw [← Option.some.inj hfind', append_right_inj_string hkey]
        rfl
      · cases hfind'
  ids := by decide +kernel
  accepted := by decide +kernel

/-- A one at a time. -/
def unitPoint (s : SequenceId) (time : Timestamp) : RawTimeseriesPoint where
  time := time
  sequenceId := s
  value := .double (.finite 1)

/-- A batch that appends, checked. -/
theorem appends_of_check {state : DerivedState} {data : TimeseriesBatch}
    (h : TimesInRange data ∧ Resolved "p" twoSources data ∧
      SafeSources "p" twoSources (updateWindowIncremental "p" data none state.window).2) :
    Appends "p" twoSources state (data, none) :=
  ⟨h.1, h.2.1, fun _ => h.2.2⟩

/-- Where every point in front of the new ones lies at 0 and all points are live, the
    predecessors and the live window are enough. -/
theorem covered_of_check {state : DerivedState} {data : TimeseriesBatch} (newest : Timestamp)
    (hv : AllValid state.window.sequenceWindows)
    (hnew : ∃ q ∈ incomingFor "fast" data.points, q.time = newest)
    (hpoints : ∀ s ∈ sourcesFor sumOfBoth, ∀ q ∈ pointsAfter "p" data none state.window s,
      ((q.time = 0 ∨ q.time = newest) ∧ (numericValue q.value).isSome = true) ∧
        (decide (liveStart (watermarkAfter "p" data state.window)
            (windowSizeAfter "p" none state.window) ≤ q.time) &&
          decide (q.time < liveEnd (watermarkAfter "p" data state.window))) = true) :
    Covered "p" twoSources state (data, none) := by
  intro hacc
  have honly : ∀ config ∈ allDerivedSeries "p" twoSources, config = sumOfBoth := by
    decide +kernel
  have hasc : ∀ s, Ascending RawTimeseriesPoint.time (pointsAfter "p" data none state.window s) :=
    fun s => ascending_retained (update_valid hacc hv) "p" s
  have hnum : ∀ s ∈ sourcesFor sumOfBoth, AllNumeric (pointsAfter "p" data none state.window s) :=
    fun s hs q hq => (hpoints s hs q hq).1.2
  constructor
  · intro config hconfig htouched t v hd hall hsource s hs q hq hfront
    obtain rfl := honly config hconfig
    have hbefore : ∀ time, InFrontOfAll "p" data none state.window twoSources time → time < newest := by
      intro time htime
      obtain ⟨q', hq', hqt⟩ := hnew
      rw [← hqt]
      exact (htime sumOfBoth hconfig htouched "fast" (by decide +kernel)).1 q' hq'
    -- both times are 0
    obtain ⟨⟨s', hs', x, hx, hxt⟩, -⟩ := defined_of_derives hasc hnum hd
    have hzero : ∀ q' ∈ pointsAfter "p" data none state.window s', q'.time < newest → q'.time = 0 :=
      fun q' hq' hlt => (hpoints s' hs' q' hq').1.1.resolve_right (ne_of_lt hlt)
    have hq0 : q.time = 0 :=
      (hpoints s hs q hq).1.1.resolve_right (ne_of_lt (hbefore q.time hfront))
    rw [hq0, ← hxt, hzero x hx (by rw [hxt]; exact hbefore t hall)]
  · intro config hconfig henabled t v _ _ hd
    obtain rfl := honly config hconfig
    refine (defined_congr fun s hs => ?_).mp (defined_of_derives hasc hnum hd)
    exact (List.filter_eq_self.mpr fun q hq => (hpoints s hs q hq).2).symm

/-- Both sources bring their points together. -/
def sameRate : List (TimeseriesBatch × Option Int) :=
  [({ points := [unitPoint "fast" 0, unitPoint "slow" 0] }, none),
   ({ points := [unitPoint "fast" 10, unitPoint "slow" 10] }, none)]

/-- Two sources with points at the same times. -/
theorem incremental_refresh_full_same_rate :
    livePart (liveStart 10 kDefaultWindowSizeMs) (liveEnd 10)
        (retained "p" "sum" (run (refreshStep 1 twoSources "p") {} sameRate).window) =
      livePart (liveStart 10 kDefaultWindowSizeMs) (liveEnd 10)
        (retained "p" "sum" (fullyRefreshed 1 twoSources "p"
          (run (refreshStep 1 twoSources "p") {} sameRate)).window) := by
  have happends : Admissible (refreshStep 1 twoSources "p") (Appends "p" twoSources) {} sameRate :=
    ⟨appends_of_check (by decide +kernel), appends_of_check (by decide +kernel), trivial⟩
  have hone : Covered "p" twoSources {}
      ({ points := [unitPoint "fast" 0, unitPoint "slow" 0] }, none) :=
    covered_of_check 0 allValid_empty ⟨unitPoint "fast" 0, by decide +kernel, rfl⟩
      (by decide +kernel)
  have hinv := refreshInv_refreshStep twoSources_accepted Nat.zero_lt_one {} _
    ⟨happends.1, hone⟩ refreshInv_init
  have htwo : Covered "p" twoSources (refreshStep 1 twoSources "p" {}
        ({ points := [unitPoint "fast" 0, unitPoint "slow" 0] }, none))
      ({ points := [unitPoint "fast" 10, unitPoint "slow" 10] }, none) :=
    covered_of_check 10 hinv.valid ⟨unitPoint "fast" 10, by decide +kernel, rfl⟩
      (by decide +kernel)
  have hwatermark : (run (refreshStep 1 twoSources "p") {} sameRate).window.watermarks.find
      (effectiveProject "p") = some 10 := by decide +kernel
  have hsize : windowSize "p" (run (refreshStep 1 twoSources "p") {} sameRate).window =
      kDefaultWindowSizeMs := by decide +kernel
  have hagree := incremental_refresh_full Nat.zero_lt_one twoSources_accepted happends
    ⟨hone, htwo, trivial⟩ (List.mem_singleton_self sumOfBoth) rfl hwatermark
  rwa [hsize] at hagree

/-- The slow source appears at 0 and, three batches later, at 40. -/
def twoRates : List (TimeseriesBatch × Option Int) :=
  [({ points := [unitPoint "fast" 0, unitPoint "slow" 0] }, none),
   ({ points := [unitPoint "fast" 10, unitPoint "fast" 20, unitPoint "fast" 30] }, none),
   ({ points := [unitPoint "slow" 40] }, none)]

/-- The patch behind the slow point erases from 0 on, and the query returns of the fast
    source the point at 30 only. -/
theorem patch_loses_points :
    AcceptedSet "p" twoSources ∧
      Admissible (refreshStep 1 twoSources "p") (Appends "p" twoSources) {} twoRates ∧
      (livePart (liveStart 40 kDefaultWindowSizeMs) (liveEnd 40)
        (retained "p" "sum" (run (refreshStep 1 twoSources "p") {} twoRates).window)).map
          RawTimeseriesPoint.time = [30] ∧
      (livePart (liveStart 40 kDefaultWindowSizeMs) (liveEnd 40)
        (retained "p" "sum" (fullyRefreshed 1 twoSources "p"
          (run (refreshStep 1 twoSources "p") {} twoRates)).window)).map
            RawTimeseriesPoint.time = [0, 10, 20, 30] := by
  refine ⟨twoSources_accepted, ⟨?_, ?_, ?_, trivial⟩, by decide +kernel, by decide +kernel⟩
  · exact appends_of_check (by decide +kernel)
  · exact appends_of_check (by decide +kernel)
  · exact appends_of_check (by decide +kernel)

end DerivedAgreement
