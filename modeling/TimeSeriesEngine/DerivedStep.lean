import TimeSeriesEngine.DerivedRefresh

/-!
# One batch and its derived refresh

A derived sequence sees only its own item of a refresh (`own_item`).  A selected formula
is patched (`selected_derived`), the sources of any other one have not changed
(`skipped_derived`), so that every enabled formula stays derived from its sources
(`refreshInv_step`).
-/

namespace DerivedStep

open TseTypes KeyedTable OrderedSeries HotWindow WindowContent WindowUpdate Registry UpdateRange
open DerivedSeries FormulaValue IngestFrame DerivedPublish DerivedPatch DerivedRefresh Transition

/-! ## What a sequence sees of a refresh -/

section Own

variable {p : ProjectId} {registry : RuntimeConfigRegistry} {service : WindowService}
  {config : RuntimeDerivedSeriesConfig}

/-- A derived sequence sees only the item of its own formula. -/
theorem own_item (hset : AcceptedSet p registry) (update : Option WindowUpdateResult)
    (incremental full : Option WindowQueryResult)
    (hconfig : config ∈ allDerivedSeries p registry) (hv : AllValid service.sequenceWindows) :
    ∃ middle : WindowService, AllValid middle.sequenceWindows ∧
      middle.watermarks = service.watermarks ∧ middle.windowSizes = service.windowSizes ∧
      (PrunedAt p (scopedSequenceKey p config.derivedSequenceId) service →
        retained p config.derivedSequenceId middle =
          retained p config.derivedSequenceId service) ∧
      (PrunedAt p (scopedSequenceKey p config.derivedSequenceId)
          (itemWrite p (computeOne p registry update incremental full config) middle) →
        retained p config.derivedSequenceId
            (((allDerivedSeries p registry).map
              (computeOne p registry update incremental full)).foldl
                (fun window item => itemWrite p item window) service) =
          retained p config.derivedSequenceId
            (itemWrite p (computeOne p registry update incremental full config) middle)) := by
  have hid := computeOne_sequenceId p registry update incremental full
  have hids : (DerivedRefreshItem.sequenceId ∘ computeOne p registry update incremental full) =
      RuntimeDerivedSeriesConfig.derivedSequenceId := funext hid
  have hnodup : (((allDerivedSeries p registry).map
      (computeOne p registry update incremental full)).map
        DerivedRefreshItem.sequenceId).Nodup := by
    rw [List.map_map, hids]
    exact hset.ids
  have hself := @itemWrites_self p _ hnodup _ (List.mem_map_of_mem hconfig) service hv
  rwa [hid config] at hself

/-- What is derived from points inside the window lies inside it. -/
theorem pruned_of_derived {points : SequenceId → List RawTimeseriesPoint}
    (hderived : DerivedFrom p config points (retained p config.derivedSequenceId service))
    {start : Timestamp} (hlive : ∀ s ∈ sourcesFor config, ∀ q ∈ points s, start ≤ q.time)
    (hstart : ∀ watermark, service.watermarks.find (effectiveProject p) = some watermark →
      windowStart watermark (windowSize p service) = start) :
    PrunedAt p (scopedSequenceKey p config.derivedSequenceId) service := by
  intro _ watermark hw q hq
  rw [hstart watermark hw]
  have hq' : q ∈ retained p config.derivedSequenceId service := hq
  by_cases hstore : Storable config.derivedSequenceId
  · obtain ⟨t, v, ⟨⟨s, hs, x, hx, hxt⟩, -⟩, rfl⟩ := (hderived.1 hstore q).mp hq'
    obtain ⟨q', hq', hqt⟩ := exists_rawPoint hx
    show start ≤ t
    rw [← hxt, ← hqt]
    exact hlive s hs q' hq'
  · rw [hderived.2 hstore] at hq'
    cases hq'

/-- Writing a patch replaces the range it covers. -/
theorem itemWrite_patch {range : IncrementalRange} {data : WindowData}
    (hid : config.derivedSequenceId ≠ "") (service : WindowService) :
    itemWrite p (computeFrom p registry (some range) data config) service =
      (patchDerivedSequence p config.derivedSequenceId
        (computeFrom p registry (some range) data config).patchStart
        (computeFrom p registry (some range) data config).patchEnd
        (computeFrom p registry (some range) data config).points service).1 := by
  have hempty : config.derivedSequenceId.isEmpty = false := by
    simpa [String.isEmpty_iff] using hid
  have hwritten : ¬ ((computeFrom p registry (some range) data config).skip ||
      !(computeFrom p registry (some range) data config).publish ||
      (computeFrom p registry (some range) data config).sequenceId.isEmpty) = true := by
    show ¬ (false || !true || config.derivedSequenceId.isEmpty) = true
    rw [hempty]
    exact Bool.false_ne_true
  rw [itemWrite, if_neg hwritten]
  rfl

theorem itemWrite_skip {item : DerivedRefreshItem} (h : item.skip = true)
    (service : WindowService) : itemWrite p item service = service := by
  rw [itemWrite, h]
  rfl

end Own

/-! ## The derived sequences behind a refresh -/

section Batch

variable {capacity : Nat} {p : ProjectId} {registry : RuntimeConfigRegistry}
  {data : TimeseriesBatch} {override : Option Int} {service : WindowService}
  {config : RuntimeDerivedSeriesConfig}

/-- What the window update leaves of a formula's points. -/
theorem pointsAfter_live (hacc : Accepted p data override) (hv : AllValid service.sequenceWindows)
    (s : SequenceId) : ∀ q ∈ pointsAfter p data override service s,
      startAfter p data override service ≤ q.time := by
  intro q hq
  rw [pointsAfter, update_retained hacc hv] at hq
  exact of_decide_eq_true (List.mem_filter.mp hq).2

/-- The start of the window after a batch. -/
theorem start_after (hacc : Accepted p data override) {after : WindowService}
    (hwatermarks : after.watermarks =
      (updateWindowIncremental p data override service).1.watermarks)
    (hsizes : after.windowSizes = (updateWindowIncremental p data override service).1.windowSizes) :
    ∀ watermark, after.watermarks.find (effectiveProject p) = some watermark →
      windowStart watermark (windowSize p after) = startAfter p data override service := by
  intro watermark hw
  rw [hwatermarks, update_watermarks hacc, find_put_self] at hw
  have hsize : windowSize p after = windowSizeAfter p override service := by
    rw [← update_windowSize hacc, windowSize, windowSize, hsizes]
  rw [hsize, ← Option.some.inj hw]
  rfl

/-- A selected formula is patched. -/
theorem selected_derived (hset : AcceptedSet p registry) (hacc : Accepted p data override)
    (hv : AllValid service.sequenceWindows) (hres : Resolved p registry data)
    (hnumeric : ∀ s, numericSourceConfig p registry s = true → AllNumeric (retained p s service))
    (hsafe : SafeSources p registry (updateWindowIncremental p data override service).2)
    (hcover : PredecessorsSuffice p data override service registry)
    (hconfig : config ∈ allDerivedSeries p registry)
    (hselected : selected (some (updateWindowIncremental p data override service).2) config = true)
    {union : IncrementalRange} {window : WindowQueryResult}
    (hquery : SharedQuery p registry data override service
      (updateWindowIncremental p data override service).2 union window)
    (hbefore : DerivedFrom p config (fun s => retained p s service)
      (retained p config.derivedSequenceId service)) (full : Option WindowQueryResult) :
    DerivedFrom p config (pointsAfter p data override service)
      (retained p config.derivedSequenceId
        (((allDerivedSeries p registry).map (computeOne p registry
          (some (updateWindowIncremental p data override service).2) (some window) full)).foldl
            (fun window item => itemWrite p item window)
            (updateWindowIncremental p data override service).1)) := by
  have hrep := update_reported hacc hv
  have hnum := hset.numeric hconfig
  obtain ⟨hid, -, -, -⟩ := accepted_sources (hset.accepted config hconfig)
  have henabled : config.enabled = true := (Bool.and_eq_true_iff.mp hselected).1
  obtain ⟨range, hrange, hjoint⟩ :=
    refreshRange_spec hset hrep hsafe hconfig ((selected_iff hrep config).mp hselected)
  obtain ⟨hstart, hend⟩ := hquery.shared.around config hconfig hselected range hrange
  have hlive := pointsAfter_live hacc hv
  have hitem : PatchItem p config (pointsAfter p data override service) union range
      (computeFrom p registry (some range) window.data config) :=
    patchItem_spec hnum (fun s => ascending_retained (update_valid hacc hv) p s) hquery.ascending
      (hquery.slices config hconfig hselected) hstart (le_trans hjoint.start_le hend)
  have happended := appended_of_safe hacc hv hres hnum (fun s hs => hnumeric s (hnum s hs))
    (hsafe config hconfig henabled) hjoint
  have hcovers := patchCovers_of_suffices hcover hrep hquery.shared hconfig hselected hjoint
    fun s _ => hlive s
  -- the derived sequence itself is not in the batch
  have hunread := retained_unread hacc hv (hres.unread (hset.plain hconfig))
  obtain ⟨middle, hvm, hwatermarks, hsizes, hsame, hown⟩ := own_item hset
    (some (updateWindowIncremental p data override service).2) (some window) full hconfig
    (update_valid hacc hv)
  have hmiddle := hsame (pruned_after hacc hv config.derivedSequenceId)
  rw [computeOne_patch hselected hrange rfl hquery.code, itemWrite_patch hid] at hown
  have hderived := hitem.derived happended hcovers hid hstart hjoint.start_le hend hbefore hvm
    (hmiddle.trans hunread)
  have hwritten := patchDerived_writes p config.derivedSequenceId
    (computeFrom p registry (some range) window.data config).patchStart
    (computeFrom p registry (some range) window.data config).patchEnd
    (computeFrom p registry (some range) window.data config).points middle
  rw [hown (pruned_of_derived hderived (fun s _ => hlive s) (start_after hacc
    (hwritten.watermarks.trans hwatermarks) (hwritten.windowSizes.trans hsizes)))]
  exact hderived

/-- The sources of a formula that is not selected have not changed. -/
theorem skipped_derived (hset : AcceptedSet p registry) (hacc : Accepted p data override)
    (hv : AllValid service.sequenceWindows) (hres : Resolved p registry data)
    (hconfig : config ∈ allDerivedSeries p registry) (henabled : config.enabled = true)
    (hselected : selected (some (updateWindowIncremental p data override service).2) config =
      false)
    (hbefore : DerivedFrom p config (fun s => retained p s service)
      (retained p config.derivedSequenceId service))
    (incremental full : Option WindowQueryResult) :
    DerivedFrom p config (pointsAfter p data override service)
      (retained p config.derivedSequenceId
        (((allDerivedSeries p registry).map (computeOne p registry
          (some (updateWindowIncremental p data override service).2) incremental full)).foldl
            (fun window item => itemWrite p item window)
            (updateWindowIncremental p data override service).1)) := by
  have hlive := pointsAfter_live hacc hv
  have hsources : ∀ s ∈ sourcesFor config,
      retained p s service = pointsAfter p data override service s := by
    intro s hs
    refine (unchanged_sources hacc hv fun hchanged => ?_).symm
    have htouches : touches (updateWindowIncremental p data override service).2.changedSequenceIds
        (sourcesFor config) = true := List.any_eq_true.mpr ⟨s, hs, decide_eq_true hchanged⟩
    rw [selected, henabled, Bool.true_and] at hselected
    simp only [htouches] at hselected
    cases hselected
  have hbefore' := derivedFrom_congr hsources hbefore
  have hunread := retained_unread hacc hv (hres.unread (hset.plain hconfig))
  -- its points lie at times of the sources, so that none of them was evicted
  have hkept : retained p config.derivedSequenceId
      (updateWindowIncremental p data override service).1 =
        retained p config.derivedSequenceId service := by
    rw [hunread]
    refine List.filter_eq_self.mpr fun q hq => decide_eq_true ?_
    by_cases hstore : Storable config.derivedSequenceId
    · obtain ⟨t, v, ⟨⟨s, hs, x, hx, hxt⟩, -⟩, rfl⟩ := (hbefore'.1 hstore q).mp hq
      obtain ⟨q', hq', hqt⟩ := exists_rawPoint hx
      show startAfter p data override service ≤ t
      rw [← hxt, ← hqt]
      exact hlive s q' hq'
    · rw [hbefore'.2 hstore] at hq
      cases hq
  obtain ⟨middle, hvm, hwatermarks, hsizes, hsame, hown⟩ := own_item hset
    (some (updateWindowIncremental p data override service).2) incremental full hconfig
    (update_valid hacc hv)
  rw [itemWrite_skip (computeOne_skip incremental full hselected)] at hown
  have hderived : DerivedFrom p config (pointsAfter p data override service)
      (retained p config.derivedSequenceId middle) := by
    rw [hsame (pruned_after hacc hv config.derivedSequenceId), hkept]
    exact hbefore'
  rw [hown (pruned_of_derived hderived (fun s _ => hlive s)
    (start_after hacc hwatermarks hsizes))]
  exact hderived

end Batch

/-! ## The step -/

section Step

variable {capacity : Nat} {p : ProjectId} {registry : RuntimeConfigRegistry}
  {data : TimeseriesBatch} {override : Option Int} {state : DerivedState}

/-- A refresh writes no source. -/
theorem source_kept (hset : AcceptedSet p registry) {before after : WindowService}
    (hwrites : WritesOnly p (derivedIds p registry) before after)
    (hv : AllValid before.sequenceWindows) {s : SequenceId}
    (hs : numericSourceConfig p registry s = true)
    (hpruned : PrunedAt p (scopedSequenceKey p s) before) :
    retained p s after = retained p s before := by
  refine hwrites.kept hv _ (fun derivedId hderived hkey => ?_) hpruned
  obtain ⟨config, hconfig, rfl⟩ := List.mem_map.mp hderived
  obtain rfl := scopedSequenceKey_inj.mp hkey
  rw [numericSourceConfig, hset.plain hconfig] at hs
  cases hs

/-- The update of the step is not older than any published one. -/
theorem update_fresh (hinv : RefreshInv p registry state) {update : WindowUpdateResult}
    (hrep : Reported p data override state.window update) :
    stale update state.lastPublishedGeneration = false := by
  have hnew : state.lastPublishedGeneration ≤ update.updateGeneration := by
    rw [hrep.updateGeneration]
    exact le_trans hinv.counter (le_nextGeneration _)
  exact decide_eq_false fun hstale => absurd hnew (by omega)

/-- The refresh behind an accepted batch, as writes of its items. -/
theorem refreshed_window (hset : AcceptedSet p registry) (hcap : 0 < capacity)
    (hinv : RefreshInv p registry state) (hacc : Accepted p data override)
    (hsafe : SafeSources p registry (updateWindowIncremental p data override state.window).2) :
    ∃ incremental,
      (refreshed capacity registry p (updateWindowIncremental p data override state.window).2
          { state with window := (updateWindowIncremental p data override state.window).1 }).window =
        ((allDerivedSeries p registry).map (computeOne p registry
          (some (updateWindowIncremental p data override state.window).2) incremental none)).foldl
            (fun window item => itemWrite p item window)
            (updateWindowIncremental p data override state.window).1 ∧
      ∀ config ∈ allDerivedSeries p registry,
        selected (some (updateWindowIncremental p data override state.window).2) config = true →
          ∃ union window, incremental = some window ∧ SharedQuery p registry data override
            state.window (updateWindowIncremental p data override state.window).2 union window := by
  have hrep := update_reported hacc hinv.valid
  obtain ⟨incremental, hitems, hquery⟩ :=
    computeItems_spec hset hacc hinv.valid hinv.size hcap hsafe
  refine ⟨incremental, ?_, hquery⟩
  have hok : isSuccessful
      (updateWindowIncremental p data override state.window).2.operation.code = true := by
    rw [hrep.code]
    rfl
  rcases refreshed_cases capacity registry p
    (updateWindowIncremental p data override state.window).2
    { state with window := (updateWindowIncremental p data override state.window).1 } with
    ⟨hno, -⟩ | ⟨-, items, hitems', heq⟩
  · -- the update was accepted and the items computed: nothing is given up
    exfalso
    rcases hno with hno | ⟨error, hno⟩
    · rw [hok] at hno
      cases hno
    · have hno' : computeItems capacity p registry
          (some (updateWindowIncremental p data override state.window).2)
          (updateWindowIncremental p data override state.window).1 = .error error := hno
      rw [hitems] at hno'
      cases hno'
  · have hsame : Except.ok ((allDerivedSeries p registry).map (computeOne p registry
        (some (updateWindowIncremental p data override state.window).2) incremental none)) =
          (Except.ok items : Except String (List DerivedRefreshItem)) := hitems.symm.trans hitems'
    rw [heq, ← Except.ok.inj hsame]
    refine publishAll_window p _ fun result hresult => ?_
    rw [← Option.some.inj hresult]
    exact update_fresh hinv hrep

/-- The watermark is a 64-bit time. -/
theorem watermarkAfter_ge {service : WindowService} (htimes : TimesInRange data)
    (hold : ∀ watermark, service.watermarks.find (effectiveProject p) = some watermark →
      int64Min ≤ watermark) : int64Min ≤ watermarkAfter p data service := by
  have hfold : ∀ (always : Bool) (points : List RawTimeseriesPoint) (watermark : Timestamp),
      int64Min ≤ watermark → (∀ q ∈ points, int64Min ≤ q.time) →
        int64Min ≤ points.foldl (fun watermark point =>
          if always || decide (watermark < point.time) then point.time else watermark)
          watermark := by
    intro always points
    induction points with
    | nil => exact fun watermark h _ => h
    | cons q points ih =>
        intro watermark h hpoints
        rw [List.foldl_cons]
        refine ih _ ?_ fun r hr => hpoints r (List.mem_cons_of_mem _ hr)
        split
        · exact hpoints q (List.mem_cons_self ..)
        · exact h
  refine hfold _ _ _ ?_ fun q hq => (htimes q hq).1
  cases hfound : service.watermarks.find (effectiveProject p) with
  | none =>
      show int64Min ≤ (0 : Int)
      decide
  | some watermark => exact hold watermark hfound

/-- **ONE BATCH.**  The update and its refresh keep every derived sequence what the
    retained points of its sources derive. -/
theorem refreshInv_step (hset : AcceptedSet p registry) (hcap : 0 < capacity)
    (hinv : RefreshInv p registry state) (hacc : Accepted p data override)
    (htimes : TimesInRange data) (hres : Resolved p registry data)
    (hsafe : SafeSources p registry (updateWindowIncremental p data override state.window).2)
    (hsuffices : Suffices p registry state.window data override) :
    RefreshInv p registry
      (refreshed capacity registry p (updateWindowIncremental p data override state.window).2
        { state with window := (updateWindowIncremental p data override state.window).1 }) := by
  have hrep := update_reported hacc hinv.valid
  have hv := update_valid hacc hinv.valid
  obtain ⟨incremental, hwindow, hquery⟩ := refreshed_window hset hcap hinv hacc hsafe
  have hwrites : WritesOnly p (derivedIds p registry)
      (updateWindowIncremental p data override state.window).1
      (refreshed capacity registry p (updateWindowIncremental p data override state.window).2
        { state with
          window := (updateWindowIncremental p data override state.window).1 }).window := by
    rw [hwindow]
    refine itemWrites_writes p (fun item hitem => ?_) _
    obtain ⟨config, hconfig, rfl⟩ := List.mem_map.mp hitem
    rw [computeOne_sequenceId]
    exact List.mem_map_of_mem hconfig
  have hcounter := refreshed_counter capacity registry p
    (updateWindowIncremental p data override state.window).2
    { state with window := (updateWindowIncremental p data override state.window).1 }
  generalize hafter : refreshed capacity registry p
    (updateWindowIncremental p data override state.window).2
    { state with window := (updateWindowIncremental p data override state.window).1 } = after at *
  -- the refresh writes derived series only, so that the sources are as updated
  have hsources : ∀ s, numericSourceConfig p registry s = true →
      retained p s after.window = pointsAfter p data override state.window s := fun s hs =>
    source_kept hset hwrites hv hs (pruned_after hacc hinv.valid s)
  have hformula : ∀ config ∈ allDerivedSeries p registry, ∀ s ∈ sourcesFor config,
      pointsAfter p data override state.window s = retained p s after.window :=
    fun config hconfig s hs => (hsources s (hset.numeric hconfig s hs)).symm
  have hstart := start_after hacc hwrites.watermarks hwrites.windowSizes
  have hsize : windowSize p after.window = windowSizeAfter p override state.window := by
    rw [hwrites.windowSize, update_windowSize hacc]
  refine ⟨hwrites.valid hv, ?_, fun watermark hw => ?_, ?_, fun s hs _ watermark hw q hq => ?_, fun s hs => ?_,
    fun config hconfig henabled => ?_, fun config hconfig henabled watermark hw => ?_⟩
  · rw [hsize, windowSizeAfter]
    cases override with
    | none => exact hinv.size
    | some size => exact hacc.size size rfl
  · rw [hwrites.watermarks, update_watermarks hacc, find_put_self] at hw
    rw [← Option.some.inj hw]
    exact watermarkAfter_ge htimes hinv.inRange
  · -- the counter is an old one or the generation of this update
    rw [hwrites.updateGenerations, update_updateGenerations hacc, find_put_self, Option.getD_some,
      hcounter, ← hrep.updateGeneration]
    have hnew : state.lastPublishedGeneration ≤
        (updateWindowIncremental p data override state.window).2.updateGeneration := by
      rw [hrep.updateGeneration]
      exact le_trans hinv.counter (le_nextGeneration _)
    split
    · exact Nat.max_le.mpr ⟨hnew, Nat.le_refl _⟩
    · exact hnew
  · rw [hstart watermark hw]
    have hq' : q ∈ retained p s after.window := hq
    rw [hsources s hs] at hq'
    exact pointsAfter_live hacc hinv.valid s q hq'
  · rw [hsources s hs]
    exact numeric_after hacc hinv.valid hres hs (hinv.numeric s hs)
  · -- a config is selected when one of its sources changed
    refine derivedFrom_congr (hformula config hconfig) ?_
    have hbefore := hinv.derived config hconfig henabled
    rw [hwindow]
    cases hselected : selected
        (some (updateWindowIncremental p data override state.window).2) config with
    | true =>
        obtain ⟨union, window, rfl, hshared⟩ := hquery config hconfig hselected
        exact selected_derived hset hacc hinv.valid hres hinv.numeric hsafe hsuffices.patch hconfig
          hselected hshared hbefore none
    | false =>
        exact skipped_derived hset hacc hinv.valid hres hconfig henabled hselected hbefore
          incremental none
  · have hwatermark : watermark = watermarkAfter p data state.window := by
      rw [hwrites.watermarks, update_watermarks hacc, find_put_self] at hw
      exact (Option.some.inj hw).symm
    have hlive := hsuffices.live config hconfig henabled
    rw [hsize, hwatermark]
    intro t v ht hlt hd
    have hd' := (derives_congr fun s hs => (hformula config hconfig s hs).symm).mp hd
    refine (defined_congr fun s hs => ?_).mp (hlive t v ht hlt hd')
    rw [hformula config hconfig s hs]

end Step

end DerivedStep
