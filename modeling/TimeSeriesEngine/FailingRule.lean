import TimeSeriesEngine.FirstEvaluation

/-!
# A failing rule and the others

The groups of a batch share one failure flag: when one evaluation fails nothing
is published, while the windows have already advanced.  `KeepsUp` is the
condition on a batch under which the entry of a rule stays a full check;
`exact_after_batches` carries it through a run.
-/

namespace FailingRule

open TseTypes KeyedTable OrderedSeries SlidingWindows SeqContent HotWindow WindowContent
open WindowUpdate ConstraintCheck Registry UpdateRange DerivedSeries HotIngest IngestFrame
open ConstraintScan RuleGroups GroupScan IngestStep ConstraintCache CoreRun FirstEvaluation
open Transition

/-- Batches of any projects, processed one at a time. -/
def ingestAll (capacity : Nat) (core : CoreService) (batches : List (ProjectId × TimeseriesBatch)) :
    CoreService :=
  run (fun core batch => (processHotIngest capacity batch.1 batch.2 core).1) core batches

/-- A batch after which the entry of a rule is up to date again. -/
structure KeepsUp (capacity : Nat) (p : ProjectId) (r : ConstraintRule) (s : SequenceId)
    (data : TimeseriesBatch) (core : CoreService) : Prop where
  /-- Where an evaluation fails, the points of the rule do not change. -/
  failing : Accepted p data none → published capacity p data core = none →
    retainedAfter p s data core.window = retained p s core.window
  /-- Where the rule is checked over a range, no window is overlooked. -/
  appended : (sequenceUpdateOf s (batchReport p data core)).incrementalSafe = true →
    ¬ Overlooked p r s data core
  /-- Where it is checked over the live window, the rest satisfies it. -/
  rescanned : (sequenceUpdateOf s (batchReport p data core)).incrementalSafe = false →
    r ∈ evaluatedRules (allEnabledConstraints p core.configs) (batchReport p data core)
      (cachedStates p core) → MissesNothing p r s data core

/-- A batch that does not report a sequence leaves its points. -/
theorem retainedAfter_unchanged {p : ProjectId} {data : TimeseriesBatch} {s : SequenceId}
    {core : CoreService} (hacc : Accepted p data none)
    (hv : AllValid core.window.sequenceWindows)
    (hno : s ∉ (batchReport p data core).changedSequenceIds) :
    retainedAfter p s data core.window = retained p s core.window := by
  have hrep := batch_reported hacc hv
  rw [hrep.changed, not_or] at hno
  obtain ⟨hnew, hevicted⟩ := hno
  have hnil : incomingFor s data.points = [] := by
    refine List.eq_nil_iff_forall_not_mem.mpr fun q hq => hnew ⟨q, ?_, ?_⟩
    · exact (mem_incomingFor.mp hq).1
    · exact (mem_incomingFor.mp hq).2
  have hgrown : grown p s data core.window = retained p s core.window := by
    rw [grown, hnil, assignAll_nil]
    rfl
  rw [retainedAfter, List.filter_eq_self.mpr fun q hq => decide_eq_true ?_, hgrown]
  exact not_lt.mp fun hlt => hevicted ⟨q, hq, hlt⟩

/-- What does not change stays exact. -/
theorem CacheExact.congr {p : ProjectId} {r : ConstraintRule} {s : SequenceId}
    {core core' : CoreService} (h : CacheExact p r s core)
    (hpoints : retained p s core'.window = retained p s core.window)
    (hcache : cachedViolations p r core' = cachedViolations p r core) :
    CacheExact p r s core' := by
  refine ⟨?_, ?_⟩
  · rw [hpoints]
    exact h.checks
  · rw [hpoints, hcache]
    exact h.same

/-- A batch of another project changes neither points nor entry. -/
theorem CacheExact.elsewhere {p p' : ProjectId} {r : ConstraintRule} {s : SequenceId}
    {core : CoreService} (h : CacheExact p r s core) (capacity : Nat) (hp : PlainProject p)
    (hp' : PlainProject p') (hne : p' ≠ p) (data : TimeseriesBatch)
    (hv : AllValid core.window.sequenceWindows) :
    CacheExact p r s (processHotIngest capacity p' data core).1 := by
  refine CacheExact.congr h ((process_elsewhere capacity hp hp' hne data hv).1 s) ?_
  rw [cachedViolations, (process_states capacity p' data core).2 p hne.symm]
  rfl

/-- **One batch.** -/
theorem exact_after_batch {capacity : Nat} {p : ProjectId} {data : TimeseriesBatch}
    {r : ConstraintRule} {s : SequenceId} {core : CoreService} (hinv : CoreInv core)
    (hp : PlainProject p) (hr : r ∈ allEnabledConstraints p core.configs)
    (hreads : SampleRuleOn r s) (hname : s.utf8ByteSize ≤ kMaxSequenceIdBytes)
    (hs : s ∉ derivedIds p core.configs) (hmax : ∀ q ∈ data.points, q.time ≤ int64Max)
    (hexact : CacheExact p r s core) (hkeeps : KeepsUp capacity p r s data core) :
    CacheExact p r s (processHotIngest capacity p data core).1 := by
  have hset := hinv.setup hp hr hreads hs
  by_cases hacc : Accepted p data none
  swap
  · rw [process_rejected hacc]
    exact hexact
  have hretained : retained p s (processHotIngest capacity p data core).1.window =
      retainedAfter p s data core.window := process_retained hacc hinv.valid hs
  have hcache := (process_states capacity p data core).1
  cases hpub : published capacity p data core with
  | none =>
      -- nothing is published; the points must not have changed
      refine CacheExact.congr hexact (hretained.trans (hkeeps.failing hacc hpub)) ?_
      rw [cachedViolations, hcache, hpub]
      rfl
  | some after =>
      by_cases hsafe : (sequenceUpdateOf s (batchReport p data core)).incrementalSafe = true
      · exact (cache_exact_iff hset hmax hexact hsafe (by rw [hpub]; rfl)).mpr
          (hkeeps.appended hsafe)
      · rw [Bool.not_eq_true] at hsafe
        by_cases heval : r ∈ evaluatedRules (allEnabledConstraints p core.configs)
            (batchReport p data core) (cachedStates p core)
        · exact evaluation_exact hinv hp hr hreads hname hs hmax hpub heval (Or.inr hsafe)
            (hkeeps.rescanned hsafe heval)
        · have hno : s ∉ (batchReport p data core).changedSequenceIds := fun hc =>
            heval (evaluated_of_changed _ hset.enabled hset.sequenceIds hc)
          refine CacheExact.congr hexact
            (hretained.trans (retainedAfter_unchanged hacc hinv.valid hno)) ?_
          rw [cachedViolations, hcache, hpub, Option.getD_some,
            published_other hset heval hpub]
          rfl

/-- **A run of batches**: the entry of a rule is a full check after every batch, as
    long as every batch of its project keeps up. -/
theorem exact_after_batches (capacity : Nat) {p : ProjectId} {r : ConstraintRule}
    {s : SequenceId} (hp : PlainProject p) (hreads : SampleRuleOn r s)
    (hname : s.utf8ByteSize ≤ kMaxSequenceIdBytes)
    {batches : List (ProjectId × TimeseriesBatch)}
    (hcarried : ∀ batch ∈ batches,
      PlainProject batch.1 ∧ ∀ q ∈ batch.2.points, q.time ≤ int64Max)
    {core : CoreService} (hinv : CoreInv core)
    (hr : r ∈ allEnabledConstraints p core.configs) (hs : s ∉ derivedIds p core.configs)
    (hexact : CacheExact p r s core)
    (hkeeps : ∀ before data rest, batches = before ++ (p, data) :: rest →
      KeepsUp capacity p r s data (ingestAll capacity core before)) :
    CacheExact p r s (ingestAll capacity core batches) := by
  induction batches generalizing core with
  | nil => exact hexact
  | cons batch batches ih =>
      obtain ⟨p', data⟩ := batch
      obtain ⟨hp', hmax⟩ := hcarried (p', data) (List.mem_cons_self ..)
      have hconfigs := process_configs capacity p' data core
      refine ih (fun b hb => hcarried b (List.mem_cons_of_mem _ hb))
        (hinv.ingest capacity hp' data) (by rw [hconfigs]; exact hr)
        (by rw [hconfigs]; exact hs) ?_ fun before data' rest heq => ?_
      · by_cases hne : p' = p
        · subst hne
          exact exact_after_batch hinv hp hr hreads hname hs hmax hexact (hkeeps [] data batches rfl)
        · exact CacheExact.elsewhere hexact capacity hp hp' hne data hinv.valid
      · exact hkeeps ((p', data) :: before) data' rest (by rw [heq]; rfl)

/-- The same from an empty service, for rules configured before the first batch. -/
theorem other_rules_not_lost (capacity : Nat) {registry : RuntimeConfigRegistry}
    (hfiled : RulesFiled registry.constraints) {p : ProjectId} {r : ConstraintRule}
    {s : SequenceId} (hp : PlainProject p) (hr : r ∈ allEnabledConstraints p registry)
    (hreads : SampleRuleOn r s) (hname : s.utf8ByteSize ≤ kMaxSequenceIdBytes)
    (hs : s ∉ derivedIds p registry) {batches : List (ProjectId × TimeseriesBatch)}
    (hcarried : ∀ batch ∈ batches,
      PlainProject batch.1 ∧ ∀ q ∈ batch.2.points, q.time ≤ int64Max)
    (hkeeps : ∀ before data rest, batches = before ++ (p, data) :: rest →
      KeepsUp capacity p r s data (ingestAll capacity { configs := registry } before)) :
    CacheExact p r s (ingestAll capacity { configs := registry } batches) := by
  obtain ⟨hnow, hviolations⟩ := recheck_spec p hreads []
  have hchecks : isSuccessful (recheck p r s []).operation.code = true :=
    hnow.mpr ⟨validateSequenceValues_eq_none.mpr ⟨⟨hreads.named, hname⟩, fun _ h => nomatch h⟩,
      (enabled_spec hp hfiled).2 r hr, fun _ h => nomatch h⟩
  refine exact_after_batches capacity hp hreads hname hcarried (coreInv_start hfiled) hr hs
    ⟨hchecks, ?_⟩ hkeeps
  exact (hviolations hchecks).symm

/-- A rule that bounds the values of `t`. -/
private def boundRule : ConstraintRule :=
  { constraintId := "q"
    variableMapping := put "y" "t" KeyedTable.empty
    upperBound := some (.finite 50)
    terms :=
      [{ variableName := "y"
         coefficient := .finite 1
         sampleOffset_le := Nat.zero_le uint64Max }] }

theorem sumConfig_bound :
    allEnabledConstraints "p" (sumConfig [sumRule "r" 0, boundRule]) =
      [boundRule, sumRule "r" 0] := rfl

/-- Both rules, and a batch that only the rule on `s` reads. -/
theorem other_rules_not_lost_one_batch :
    CacheExact "p" (sumRule "r" 0) "s"
      (ingestAll 4 { configs := sumConfig [sumRule "r" 0, boundRule] }
        [("p", { points := [sampleAt "s" 0 100, sampleAt "s" 1 0] })]) := by
  have hp : PlainProject "p" := by decide
  have hfiled : RulesFiled (sumConfig [sumRule "r" 0, boundRule]).constraints :=
    upsertConstraints_filed hp _ rulesFiled_empty
  have hr : sumRule "r" 0 ∈ allEnabledConstraints "p" (sumConfig [sumRule "r" 0, boundRule]) := by
    rw [sumConfig_bound]
    exact List.mem_cons_of_mem _ (List.mem_singleton_self _)
  refine other_rules_not_lost 4 hfiled hp hr (sumRule_reads "r" 0 _) (by decide)
    (by decide +kernel) ?_ ?_
  · intro batch hb
    rw [List.mem_singleton.mp hb]
    exact ⟨hp, by decide⟩
  · intro before data rest heq
    obtain ⟨rfl, hbatch, -⟩ : before = [] ∧ ("p", data) = _ ∧ rest = [] := by
      cases before with
      | nil => exact ⟨rfl, (List.cons.inj heq).1.symm, (List.cons.inj heq).2.symm⟩
      | cons b bs => exact absurd (List.cons.inj heq).2 (by simp)
    obtain ⟨-, rfl⟩ := Prod.mk.inj hbatch
    refine ⟨fun _ h => ?_, fun _ h => ?_, fun h => ?_⟩
    · exact absurd h (by decide +kernel)
    · exact absurd h.wraps (by decide +kernel)
    · exact absurd h (by decide +kernel)

/-- A text in `t` fails the rule on `t`; the violation that arrived for `s` in the
    same batch is not in the cache after the next one. -/
theorem failing_rule_loses_violation :
    let r := sumRule "r" 0
    let first : TimeseriesBatch :=
      { points := [sampleAt "s" 0 100, { time := 0, sequenceId := "t", value := .string "x" }] }
    let second : TimeseriesBatch := { points := [sampleAt "s" 1 0] }
    let registry := sumConfig [r, boundRule]
    let core := ingestAll 4 { configs := registry } [("p", first)]
    SampleRuleOn r "s" ∧ r ∈ allEnabledConstraints "p" registry ∧
      (∀ batches ∈ [[("p", first)], [("p", first), ("p", second)]],
        isSuccessful (recheck "p" r "s" (retained "p" "s"
          (ingestAll 4 { configs := registry } batches).window)).operation.code = true) ∧
      (published 4 "p" second core).isSome = true ∧
      (sequenceUpdateOf "s" (batchReport "p" second core)).incrementalSafe = true ∧
      ¬ CacheExact "p" r "s" (ingestAll 4 { configs := registry } [("p", first), ("p", second)]) := by
  intro r first second registry core
  refine ⟨sumRule_reads "r" 0 _, ?_, ?_, by decide +kernel, by decide +kernel, fun h => ?_⟩
  · show sumRule "r" 0 ∈ allEnabledConstraints "p" (sumConfig [sumRule "r" 0, boundRule])
    rw [sumConfig_bound]
    exact List.mem_cons_of_mem _ (List.mem_singleton_self _)
  · decide +kernel
  · exact absurd h.same (by decide +kernel)

end FailingRule
