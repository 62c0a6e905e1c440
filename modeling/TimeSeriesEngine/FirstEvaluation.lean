import TimeSeriesEngine.CoreRun

/-!
# The first evaluation of a rule

Whether a rule is checked over a range or over the live window follows from the
update alone; that the rule has no trusted cache yet plays no part.  `Covered`
says which windows of the retained points the evaluation of a batch is sure to
look at.  A first evaluation is a full check when all others satisfy the rule
(`first_evaluation_exact`), and so is every first evaluation of a run
(`first_evaluations_exact`).
-/

namespace FirstEvaluation

open TseTypes KeyedTable OrderedSeries SlidingWindows SeqContent HotWindow WindowContent
open WindowUpdate ConstraintCheck Registry UpdateRange DerivedSeries HotIngest IngestFrame
open ConstraintScan RuleGroups GroupScan IngestStep ConstraintCache CoreRun Transition

/-- The windows the evaluation of a batch looks at: for an appended sequence those
    with a point that is not in front of everything new, otherwise those inside the
    default live window.  With a wrapped offset in the group all points count. -/
structure Covered (p : ProjectId) (r : ConstraintRule) (s : SequenceId) (data : TimeseriesBatch)
    (core : CoreService) (w : List RawTimeseriesPoint) : Prop where
  appended : (sequenceUpdateOf s (batchReport p data core)).incrementalSafe = true →
    ¬ OffsetWraps (mates p data core r) →
      ∃ q ∈ w, ¬ InFront p data core.window (mateSequences p data core r) q
  wrapped : (sequenceUpdateOf s (batchReport p data core)).incrementalSafe = true →
    OffsetWraps (mates p data core r) →
      ∀ q ∈ w, ¬ InFront p data core.window (mateSequences p data core r) q ∧ q.time ≠ int64Max
  live : (sequenceUpdateOf s (batchReport p data core)).incrementalSafe = false →
    ∀ q ∈ w, liveStart (watermarkAfter p data core.window) (windowSize p core.window) ≤ q.time ∧
      q.time < liveEnd (watermarkAfter p data core.window)

/-- **What an evaluation looks at.** -/
structure Evaluation (p : ProjectId) (r : ConstraintRule) (s : SequenceId)
    (data : TimeseriesBatch) (core : CoreService) (entry : CachedConstraintState)
    (scanned : List RawTimeseriesPoint) : Prop where
  ascending : Ascending RawTimeseriesPoint.time scanned
  inside : ∀ w ∈ windows (maximumOffset r) scanned,
    w ∈ windows (maximumOffset r) (retainedAfter p s data core.window)
  covers : ∀ w ∈ windows (maximumOffset r) (retainedAfter p s data core.window),
    Covered p r s data core w → w ∈ windows (maximumOffset r) scanned
  readable : ∀ w ∈ windows (maximumOffset r) scanned, Readable r w
  initialized : entry.initialized = true
  fresh : cachedViolations p r core = [] ∨
    (sequenceUpdateOf s (batchReport p data core)).incrementalSafe = false →
      entry.violations = violationsOver r scanned

/-- A range on the rule means its sequence was appended to. -/
theorem ruleRange_isSome_iff {p : ProjectId} {data : TimeseriesBatch} {r : ConstraintRule}
    {s : SequenceId} {core : CoreService} (hset : RuleSetup p r s core)
    (hacc : Accepted p data none) :
    (ruleRange (allEnabledConstraints p core.configs) (batchReport p data core) r).isSome = true ↔
      (sequenceUpdateOf s (batchReport p data core)).incrementalSafe = true := by
  have hrep := batch_reported hacc hset.valid
  have hkeys : (batchReport p data core).sequenceUpdates.keys ≠ [] := by
    obtain ⟨q, hq⟩ := List.exists_mem_of_ne_nil _ hacc.nonempty
    obtain ⟨a, b, ha, -⟩ := hrep.affected q.sequenceId
      (List.ne_nil_of_mem (mem_incomingFor.mpr ⟨hq, rfl⟩))
    have hfind : ((batchReport p data core).sequenceUpdates.find q.sequenceId).isSome = true := by
      unfold sequenceUpdateOf at ha
      cases hf : (batchReport p data core).sequenceUpdates.find q.sequenceId with
      | none =>
          rw [hf] at ha
          exact nomatch ha
      | some u => rfl
    exact List.ne_nil_of_mem (((batchReport p data core).sequenceUpdates.mem_keys _).mpr hfind)
  rw [ruleRange, hset.sequenceIds]
  constructor
  · intro h
    obtain ⟨range, hrange⟩ := Option.isSome_iff_exists.mp h
    exact safe_of_range hkeys hrange
  · intro h
    obtain ⟨range, hrange, -⟩ := safe_range hrep hkeys h
    rw [hrange]
    rfl

/-- **Every evaluated rule** is checked on the windows the batch covers. -/
theorem published_evaluation {capacity : Nat} {p : ProjectId} {data : TimeseriesBatch}
    {r : ConstraintRule} {s : SequenceId} {core : CoreService} (hset : RuleSetup p r s core)
    (hmax : ∀ q ∈ data.points, q.time ≤ int64Max)
    (heval : r ∈ evaluatedRules (allEnabledConstraints p core.configs) (batchReport p data core)
      (cachedStates p core))
    {after : Table String CachedConstraintState}
    (hpub : published capacity p data core = some after) :
    ∃ scanned, Evaluation p r s data core (stateOf r.constraintId after) scanned := by
  have hacc := published_accepted hpub
  have hrep := batch_reported hacc hset.valid
  by_cases hsafe : (sequenceUpdateOf s (batchReport p data core)).incrementalSafe = true
  · obtain ⟨range, scanned, h⟩ := published_rescanned hset hsafe hpub
    obtain ⟨hne, hgrown⟩ := hrep.safe s hsafe
    have hend := retainedAfter_le hset.valid hne hgrown fun q hq => (h.covers q hq).2
    have hendMax : range.endTime ≤ int64Max := by
      obtain ⟨q, hq, hqe⟩ := h.last
      exact hqe ▸ hmax q hq
    refine ⟨scanned, h.ascending, h.inside, fun w hw hc => ?_, h.readable, ?_, fun hnil => ?_⟩
    · obtain ⟨hplain, hwrap⟩ := h.reached w hw
      have hin : ∀ q ∈ w, q ∈ retainedAfter p s data core.window :=
        fun q hq => (mem_windows.mp hw).1.subset hq
      have hfront : ∀ q ∈ w, ¬ InFront p data core.window (mateSequences p data core r) q →
          range.startTime ≤ q.time := fun q hq hno =>
        not_lt.mp fun hlt => hno ((h.front q (of_decide_eq_true
          (List.mem_filter.mp (hin q hq)).2)).mp hlt)
      by_cases hyes : OffsetWraps (mates p data core r)
      · refine (hwrap hyes).mpr fun q hq => ?_
        obtain ⟨h1, h2⟩ := hc.wrapped hsafe hyes q hq
        refine ⟨hfront q hq h1, not_le.mp fun hle => h2 ?_⟩
        exact (queryEnd_le_iff (hend q (hin q hq)) hendMax).mp hle
      · obtain ⟨q, hq, h1⟩ := hc.appended hsafe hyes
        exact hplain hyes ⟨q, hq, hfront q hq h1⟩
    · rw [h.entry]
    · have hnil' := hnil.resolve_right (by rw [hsafe]; exact Bool.noConfusion)
      rw [h.entry, hnil']
      exact (ascending_violationsOver r h.ascending).assignAll_empty
  · have hnone : ruleRange (allEnabledConstraints p core.configs) (batchReport p data core) r =
        none := by
      cases hr : ruleRange (allEnabledConstraints p core.configs) (batchReport p data core) r with
      | none => rfl
      | some range =>
          exact absurd ((ruleRange_isSome_iff hset hacc).mp (by rw [hr]; rfl)) hsafe
    obtain ⟨hread, hentry⟩ := published_full hset heval hnone hpub
    have hasc : Ascending RawTimeseriesPoint.time (retainedAfter p s data core.window) :=
      (ascending_grown hset.valid p s data).filter _ _
    have hlive : liveAfter p s data core.window <:+: retainedAfter p s data core.window := by
      unfold liveAfter
      rw [← sliceOf_range hasc]
      exact sliceOf_within _ _ _ _ _
    refine ⟨liveAfter p s data core.window, hasc.filter _ _, fun w hw => windows_mono hlive hw,
      fun w hw hc => ?_, hread, ?_, fun _ => ?_⟩
    · refine windows_filter hw fun q hq => ?_
      obtain ⟨h1, h2⟩ := hc.live (by simpa using hsafe) q hq
      simp [h1, h2]
    · rw [hentry]
    · rw [hentry]

/-- The rule is evaluated for the first time. -/
def FirstEvaluated (capacity : Nat) (p : ProjectId) (r : ConstraintRule) (data : TimeseriesBatch)
    (core : CoreService) : Prop :=
  (stateOf r.constraintId (cachedStates p core)).initialized = false ∧
    (stateOf r.constraintId
      (cachedStates p (processHotIngest capacity p data core).1)).initialized = true

/-- Every window the evaluation may miss satisfies the rule. -/
def MissesNothing (p : ProjectId) (r : ConstraintRule) (s : SequenceId) (data : TimeseriesBatch)
    (core : CoreService) : Prop :=
  ∀ w ∈ windows (maximumOffset r) (retainedAfter p s data core.window),
    ¬ Covered p r s data core w → Satisfied r w

/-- Overlaying nothing: an evaluation is a full check when the rest is satisfied. -/
theorem Evaluation.exact {p : ProjectId} {r : ConstraintRule} {s : SequenceId}
    {data : TimeseriesBatch} {core : CoreService} {entry : CachedConstraintState}
    {scanned : List RawTimeseriesPoint} (h : Evaluation p r s data core entry scanned)
    (hasc : Ascending RawTimeseriesPoint.time (retainedAfter p s data core.window))
    (hmiss : MissesNothing p r s data core) :
    (∀ w ∈ windows (maximumOffset r) (retainedAfter p s data core.window), Readable r w) ∧
      violationsOver r scanned = violationsOver r (retainedAfter p s data core.window) := by
  have hrest : ∀ w ∈ windows (maximumOffset r) (retainedAfter p s data core.window),
      w ∉ windows (maximumOffset r) scanned → Satisfied r w :=
    fun w hw hno => hmiss w hw fun hc => hno (h.covers w hw hc)
  constructor
  · intro w hw
    by_cases hs : w ∈ windows (maximumOffset r) scanned
    · exact h.readable w hs
    · exact (satisfied_iff.mp (hrest w hw hs)).1
  · refine ascending_ext _ (ascending_violationsOver r h.ascending)
      (ascending_violationsOver r hasc) fun v => ?_
    rw [mem_violationsOver, mem_violationsOver]
    constructor
    · rintro ⟨w, hw, hv⟩
      exact ⟨w, h.inside w hw, hv⟩
    · rintro ⟨w, hw, hv⟩
      by_cases hs : w ∈ windows (maximumOffset r) scanned
      · exact ⟨w, hs, hv⟩
      · rw [(satisfied_iff.mp (hrest w hw hs)).2] at hv
        exact nomatch hv

/-- **An evaluation that starts afresh** and misses nothing is a full check. -/
theorem evaluation_exact {capacity : Nat} {p : ProjectId} {data : TimeseriesBatch}
    {r : ConstraintRule} {s : SequenceId} {core : CoreService} (hinv : CoreInv core)
    (hp : PlainProject p) (hr : r ∈ allEnabledConstraints p core.configs)
    (hreads : SampleRuleOn r s) (hname : s.utf8ByteSize ≤ kMaxSequenceIdBytes)
    (hs : s ∉ derivedIds p core.configs) (hmax : ∀ q ∈ data.points, q.time ≤ int64Max)
    {after : Table String CachedConstraintState}
    (hpub : published capacity p data core = some after)
    (heval : r ∈ evaluatedRules (allEnabledConstraints p core.configs) (batchReport p data core)
      (cachedStates p core))
    (hfresh : cachedViolations p r core = [] ∨
      (sequenceUpdateOf s (batchReport p data core)).incrementalSafe = false)
    (hmiss : MissesNothing p r s data core) :
    CacheExact p r s (processHotIngest capacity p data core).1 := by
  have hset := hinv.setup hp hr hreads hs
  obtain ⟨scanned, h⟩ := published_evaluation hset hmax heval hpub
  have hasc : Ascending RawTimeseriesPoint.time (retainedAfter p s data core.window) :=
    (ascending_grown hinv.valid p s data).filter _ _
  obtain ⟨hread, hsame⟩ := h.exact hasc hmiss
  have hretained : retained p s (processHotIngest capacity p data core).1.window =
      retainedAfter p s data core.window :=
    process_retained (published_accepted hpub) hinv.valid hs
  obtain ⟨hnow, hviolations⟩ := recheck_spec p hreads (retainedAfter p s data core.window)
  have hvalues : validateSequenceValues p s (retainedAfter p s data core.window) = none := by
    refine validateSequenceValues_eq_none.mpr ⟨⟨hreads.named, hname⟩, fun q hq => ?_⟩
    rw [← hretained] at hq
    refine (hinv.ingest capacity hp data).points p s hp ?_ q hq
    rw [process_configs]
    exact hs
  have hchecks : isSuccessful (recheck p r s
      (retainedAfter p s data core.window)).operation.code = true :=
    hnow.mpr ⟨hvalues, (enabled_spec hp hinv.rules).2 r hr, hread⟩
  refine ⟨?_, ?_⟩
  · rw [hretained]
    exact hchecks
  · rw [hretained, hviolations hchecks, ← hsame, cachedViolations,
      (process_states capacity p data core).1, hpub, Option.getD_some]
    exact h.fresh hfresh

/-- **A first evaluation** that misses nothing is a full check. -/
theorem first_evaluation_exact {capacity : Nat} {p : ProjectId} {data : TimeseriesBatch}
    {r : ConstraintRule} {s : SequenceId} {core : CoreService} (hinv : CoreInv core)
    (hp : PlainProject p) (hr : r ∈ allEnabledConstraints p core.configs)
    (hreads : SampleRuleOn r s) (hname : s.utf8ByteSize ≤ kMaxSequenceIdBytes)
    (hs : s ∉ derivedIds p core.configs) (hmax : ∀ q ∈ data.points, q.time ≤ int64Max)
    (hfirst : FirstEvaluated capacity p r data core) (hmiss : MissesNothing p r s data core) :
    CacheExact p r s (processHotIngest capacity p data core).1 := by
  obtain ⟨hbefore, hafter⟩ := hfirst
  rw [(process_states capacity p data core).1] at hafter
  cases hpub : published capacity p data core with
  | none =>
      rw [hpub, Option.getD_none, hbefore] at hafter
      exact nomatch hafter
  | some after =>
      rw [hpub, Option.getD_some] at hafter
      refine evaluation_exact hinv hp hr hreads hname hs hmax hpub ?_
        (Or.inl (hinv.untouched p r.constraintId hbefore)) hmiss
      by_contra hno
      rw [published_other (hinv.setup hp hr hreads hs) hno hpub, hbefore] at hafter
      exact nomatch hafter

/-- A rule that was there before its sequence misses nothing. -/
theorem missesNothing_of_new {p : ProjectId} {r : ConstraintRule} {s : SequenceId}
    {data : TimeseriesBatch} {core : CoreService} (hset : RuleSetup p r s core)
    (hnew : retained p s core.window = [])
    (hsafe : (sequenceUpdateOf s (batchReport p data core)).incrementalSafe = true)
    (hwraps : ¬ OffsetWraps (mates p data core r)) : MissesNothing p r s data core := by
  intro w hw hno
  refine absurd ⟨fun _ _ => ?_, fun _ hyes => absurd hyes hwraps, fun h => ?_⟩ hno
  · -- every point of the window is itself new
    obtain ⟨q, hq⟩ := List.exists_mem_of_ne_nil w fun he => by
      rw [he] at hw
      exact nomatch (mem_windows.mp hw).2
    have hrep := batch_reported (accepted_of_safe hsafe) hset.valid
    have hgrown := (hrep.safe s hsafe).2
    have hq' := (List.mem_filter.mp ((mem_windows.mp hw).1.subset hq)).1
    rw [hgrown, hnew, List.nil_append] at hq'
    refine ⟨q, hq, fun hfront => ?_⟩
    have hs : s ∈ mateSequences p data core r := by
      obtain ⟨hmember, -, -⟩ := incremental_group hrep (cachedStates p core) hset.ids
        hset.enabled hset.reads hsafe
      refine List.mem_flatMap.mpr ⟨r, hmember, ?_⟩
      rw [hset.sequenceIds]
      exact List.mem_singleton_self s
    exact absurd ((hfront s hs).1 q hq') (lt_irrefl _)
  · rw [hsafe] at h
    exact nomatch h

/-- **Every first evaluation of a run** that misses nothing leaves the cache of a
    full check, whatever was ingested before the rule was configured. -/
theorem first_evaluations_exact (capacity : Nat) {registry : RuntimeConfigRegistry}
    (hempty : registry.constraints = KeyedTable.empty) {before : List CoreAction}
    {p : ProjectId} {data : TimeseriesBatch}
    (hcarried : ∀ action ∈ before ++ [.ingest p data], Carried action) {r : ConstraintRule}
    {s : SequenceId} (hreads : SampleRuleOn r s) (hname : s.utf8ByteSize ≤ kMaxSequenceIdBytes)
    (hs : s ∉ derivedIds p registry)
    (hr : r ∈ allEnabledConstraints p
      (run (coreStep capacity) { configs := registry } before).configs)
    (hfirst : FirstEvaluated capacity p r data
      (run (coreStep capacity) { configs := registry } before))
    (hmiss : MissesNothing p r s data
      (run (coreStep capacity) { configs := registry } before)) :
    CacheExact p r s
      (run (coreStep capacity) { configs := registry } (before ++ [.ingest p data])) := by
  have hinv := coreInv_run (coreInv_start (hempty ▸ rulesFiled_empty)) capacity
    fun action ha => hcarried action (List.mem_append.mpr (Or.inl ha))
  obtain ⟨hp, hmax⟩ := hcarried (.ingest p data)
    (List.mem_append.mpr (Or.inr (List.mem_cons_self ..)))
  rw [run_append]
  refine first_evaluation_exact hinv hp hr hreads hname ?_ hmax hfirst hmiss
  rw [allDerivedSeries_congr p (run_derived capacity _ before)]
  exact hs

/-- The rule is configured before the first batch. -/
theorem first_evaluations_exact_fresh :
    CacheExact "p" (sumRule "r" 1) "s"
      (run (coreStep 4) { configs := sumConfig [] }
        ([.sync "p" [{ rule := sumRule "r" 1, enabled := true }]] ++
          [.ingest "p" { points := [sampleAt "s" 0 0, sampleAt "s" 1 100] }])) := by
  have hcarried : ∀ action ∈ ([.sync "p" [{ rule := sumRule "r" 1, enabled := true }]] ++
      [.ingest "p" { points := [sampleAt "s" 0 0, sampleAt "s" 1 100] }] : List CoreAction),
      Carried action := by
    have hp : PlainProject "p" := by decide
    intro action ha
    rcases List.mem_cons.mp ha with rfl | ha
    · exact hp
    · rw [List.mem_singleton.mp ha]
      exact ⟨hp, by decide⟩
  have hr : sumRule "r" 1 ∈ allEnabledConstraints "p" (run (coreStep 4)
      { configs := sumConfig [] }
      [.sync "p" [{ rule := sumRule "r" 1, enabled := true }]]).configs :=
    List.mem_singleton_self _
  have hinv : CoreInv (run (coreStep 4) { configs := sumConfig [] }
      [.sync "p" [{ rule := sumRule "r" 1, enabled := true }]]) :=
    coreInv_run (coreInv_start rulesFiled_empty) 4
      fun action ha => hcarried action (List.mem_append.mpr (Or.inl ha))
  refine first_evaluations_exact 4 rfl hcarried (sumRule_reads "r" 1 _) (by decide)
    (by decide +kernel) hr ⟨by decide +kernel, by decide +kernel⟩ ?_
  exact missesNothing_of_new (hinv.setup (by decide) hr (sumRule_reads "r" 1 _)
    (by decide +kernel)) (by decide +kernel) (by decide +kernel) (by decide +kernel)

/-- Two points arrive before the rule is configured; the next batch checks its own
    range only, and the anchor in front of it is never looked at. -/
theorem first_evaluation_misses_old_points :
    let core := run (coreStep 4) { configs := sumConfig [] }
      [.ingest "p" { points := [sampleAt "s" 0 100, sampleAt "s" 1 100] },
        .sync "p" [{ rule := sumRule "r" 1, enabled := true }]]
    let data : TimeseriesBatch := { points := [sampleAt "s" 2 0] }
    SampleRuleOn (sumRule "r" 1) "s" ∧ "s" ∉ derivedIds "p" core.configs ∧
      sumRule "r" 1 ∈ allEnabledConstraints "p" core.configs ∧
      FirstEvaluated 4 "p" (sumRule "r" 1) data core ∧
      ¬ CacheExact "p" (sumRule "r" 1) "s" (coreStep 4 core (.ingest "p" data)) := by
  intro core data
  refine ⟨sumRule_reads "r" 1 _, by decide +kernel, ?_, ⟨by decide +kernel, by decide +kernel⟩,
    fun h => ?_⟩
  · exact List.mem_singleton_self _
  · exact absurd h.same (by decide +kernel)

end FirstEvaluation
