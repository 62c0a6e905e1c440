import TimeSeriesEngine.Library.Transition
import TimeSeriesEngine.ConstraintCache

/-!
# Runs of the core service

Batches and rule synchronisations, one after another.  `CoreInv` is what every
run keeps:

* the registry files each rule under its own project and id, validated;
* the windows are well formed and hold valid points under their own sequence;
* the cache is empty where a rule was never evaluated, and never newer than its
  project.

`CoreInv.setup` turns it into the `RuleSetup` of any enabled rule.
-/

namespace CoreRun

open TseTypes KeyedTable OrderedSeries SlidingWindows SeqContent HotWindow WindowContent
open WindowUpdate ConstraintCheck Registry UpdateRange DerivedSeries HotIngest IngestFrame
open ConstraintScan RuleGroups GroupScan IngestStep ConstraintCache Transition

/-- The requests of a run. -/
inductive CoreAction where
  | ingest (projectId : ProjectId) (data : TimeseriesBatch)
  | sync (projectId : ProjectId) (items : List RuntimeConstraintConfig)

/-- The service behind a request. -/
def coreStep (capacity : Nat) (core : CoreService) : CoreAction → CoreService
  | .ingest projectId data => (processHotIngest capacity projectId data core).1
  | .sync projectId items => (syncConstraints projectId items core).1

/-! ## Project ids -/

/-- A nonempty project id without the separator of the scoped keys. -/
def PlainProject (p : ProjectId) : Prop := p ≠ "" ∧ '\x1e' ∉ p.toList

instance (p : ProjectId) : Decidable (PlainProject p) := by
  unfold PlainProject
  infer_instance

/-- What an action carries: a plain project, and 64-bit times. -/
def Carried : CoreAction → Prop
  | .ingest projectId data => PlainProject projectId ∧ ∀ q ∈ data.points, q.time ≤ int64Max
  | .sync projectId _ => PlainProject projectId

/-- Two words that end at the first separator. -/
theorem split_at_separator {α : Type} {x : α} {xs ys us vs : List α} (hxs : x ∉ xs)
    (hys : x ∉ ys) (h : xs ++ x :: us = ys ++ x :: vs) : xs = ys := by
  induction xs generalizing ys with
  | nil =>
      cases ys with
      | nil => rfl
      | cons y ys =>
          rw [List.nil_append, List.cons_append] at h
          exact absurd (List.mem_cons.mpr (Or.inl (List.cons.inj h).1)) hys
  | cons z zs ih =>
      cases ys with
      | nil =>
          rw [List.nil_append, List.cons_append] at h
          exact absurd (List.mem_cons.mpr (Or.inl (List.cons.inj h).1.symm)) hxs
      | cons y ys =>
          rw [List.cons_append, List.cons_append] at h
          obtain ⟨rfl, h'⟩ := List.cons.inj h
          rw [ih (fun hm => hxs (List.mem_cons_of_mem _ hm))
            (fun hm => hys (List.mem_cons_of_mem _ hm)) h']

/-- Plain projects have keys of their own. -/
theorem scopePrefix_inj {p p' : ProjectId} (hp : PlainProject p) (hp' : PlainProject p')
    {x y : String} (h : scopePrefix p ++ x = scopePrefix p' ++ y) : p = p' := by
  have hl := congrArg String.toList h
  simp only [scopePrefix, String.toList_append, List.append_assoc] at hl
  exact String.toList_inj.mp (split_at_separator hp.2 hp'.2 hl)

/-- A scoped key has the prefix of its own project only. -/
theorem hasPrefix_scoped_iff {p p' : ProjectId} (hp : PlainProject p) (hp' : PlainProject p')
    {x : String} : hasPrefix (scopePrefix p) (scopePrefix p' ++ x) = true ↔ p = p' := by
  rw [hasPrefix_iff]
  constructor
  · rintro ⟨y, hy⟩
    exact (scopePrefix_inj hp' hp hy).symm
  · rintro rfl
    exact ⟨x, rfl⟩

/-! ## Filed rules -/

/-- Every rule is valid and stands under its own project and id. -/
def RulesFiled (constraints : Table String RuntimeConstraintConfig) : Prop :=
  ∀ key config, constraints.find key = some config →
    ∃ p, PlainProject p ∧ key = scopedKey p config.rule.constraintId ∧
      ∃ properties, validateConstraintRule config.rule = .ok properties

theorem rulesFiled_empty : RulesFiled KeyedTable.empty := fun _ _ h => nomatch h

/-- Inserting rules keeps them filed under their keys. -/
theorem upsertConstraintItems_filed {project : ProjectId} (hp : PlainProject project)
    {registry : RuntimeConfigRegistry} {items : List RuntimeConstraintConfig}
    {seen : List String} {constraints out : Table String RuntimeConstraintConfig}
    (h : RulesFiled constraints)
    (heq : upsertConstraintItems project registry items seen constraints = .ok out) :
    RulesFiled out := by
  induction items generalizing seen constraints with
  | nil =>
      rw [upsertConstraintItems] at heq
      rw [← Except.ok.inj heq]
      exact h
  | cons item items ih =>
      rw [upsertConstraintItems] at heq
      split at heq
      · exact nomatch heq
      cases hval : validateConstraintRule item.rule with
      | error error =>
          rw [hval] at heq
          exact nomatch heq
      | ok properties =>
          rw [hval] at heq
          simp only at heq
          split at heq
          · exact nomatch heq
          · refine ih ?_ heq
            intro key config hfind
            rw [find_put] at hfind
            split at hfind
            · rename_i hkey
              rw [← Option.some.inj hfind]
              exact ⟨project, hp, hkey, properties, hval⟩
            · exact h key config hfind

theorem snapshotProject_plain {p : ProjectId} (hp : PlainProject p) : snapshotProject p = p :=
  effectiveProject_of_ne hp.1

theorem upsertConstraints_filed {p : ProjectId} (hp : PlainProject p)
    (items : List RuntimeConstraintConfig) {registry : RuntimeConfigRegistry}
    (h : RulesFiled registry.constraints) :
    RulesFiled (upsertConstraints p items registry).1.constraints := by
  unfold upsertConstraints
  rw [snapshotProject_plain hp]
  cases hitems : upsertConstraintItems p registry items [] registry.constraints with
  | error message => exact h
  | ok constraints => exact upsertConstraintItems_filed hp h hitems

/-- What a rule synchronisation changes. -/
theorem sync_spec {p : ProjectId} (hp : PlainProject p) (items : List RuntimeConstraintConfig)
    (core : CoreService) (h : RulesFiled core.configs.constraints) :
    RulesFiled (syncConstraints p items core).1.configs.constraints ∧
      (syncConstraints p items core).1.window = core.window ∧
      (syncConstraints p items core).1.configs.derivedSeries = core.configs.derivedSeries ∧
      ∀ p', cachedStates p' (syncConstraints p items core).1 = cachedStates p' core ∨
        cachedStates p' (syncConstraints p items core).1 = KeyedTable.empty := by
  have hfiled := upsertConstraints_filed hp items h
  unfold syncConstraints
  unfold upsertConstraints at hfiled ⊢
  cases hitems : upsertConstraintItems (snapshotProject p) core.configs items []
      core.configs.constraints with
  | error message => exact ⟨h, rfl, rfl, fun _ => Or.inl rfl⟩
  | ok constraints =>
      rw [hitems] at hfiled
      refine ⟨hfiled, rfl, rfl, fun p' => ?_⟩
      by_cases he : p' = p
      · right
        rw [cachedStates, he]
        show (KeyedTable.Table.find (erase p core.constraintStates) p).getD _ = _
        rw [find_erase_self]
        rfl
      · left
        rw [cachedStates]
        show (KeyedTable.Table.find (erase p core.constraintStates) p').getD _ = _
        rw [find_erase_of_ne he]
        rfl

theorem allDerivedSeries_congr (p : ProjectId) {a b : RuntimeConfigRegistry}
    (h : a.derivedSeries = b.derivedSeries) : derivedIds p a = derivedIds p b := by
  unfold derivedIds allDerivedSeries
  rw [h]

/-- The enabled rules of a plain project are valid, and one per id. -/
theorem enabled_spec {p : ProjectId} (hp : PlainProject p) {registry : RuntimeConfigRegistry}
    (h : RulesFiled registry.constraints) :
    ((allEnabledConstraints p registry).map ConstraintRule.constraintId).Nodup ∧
      ∀ r ∈ allEnabledConstraints p registry,
        ∃ properties, validateConstraintRule r = .ok properties := by
  refine enabled_of_own fun key config hfind hpre => ?_
  obtain ⟨p', hp', heq, hval⟩ := h key config hfind
  rw [heq] at hpre
  rw [(hasPrefix_scoped_iff hp hp').mp hpre]
  exact ⟨heq, hval⟩

/-! ## The invariant -/

/-- **What every run keeps.** -/
structure CoreInv (core : CoreService) : Prop where
  valid : AllValid core.window.sequenceWindows
  sizes : ∀ p, 0 < windowSize p core.window
  rules : RulesFiled core.configs.constraints
  generations : ∀ p, PlainProject p → ∀ id,
    (stateOf id (cachedStates p core)).updateGeneration ≤
      (core.window.updateGenerations.find p).getD 0
  untouched : ∀ p id, (stateOf id (cachedStates p core)).initialized = false →
    (stateOf id (cachedStates p core)).violations = []
  points : ∀ p s, PlainProject p → s ∉ derivedIds p core.configs →
    ∀ q ∈ retained p s core.window, q.sequenceId = s ∧ validateRawPoint p q = none

theorem scopedKey_ne {p p' : ProjectId} (hp : PlainProject p) (hp' : PlainProject p')
    (hne : p' ≠ p) (s s' : SequenceId) : scopedSequenceKey p s ≠ scopedSequenceKey p' s' := by
  unfold scopedSequenceKey
  rw [effectiveProject_of_ne hp.1, effectiveProject_of_ne hp'.1]
  exact fun h => hne (scopePrefix_inj hp hp' h).symm

/-- A batch of another project leaves a project's points and generation alone. -/
theorem process_elsewhere (capacity : Nat) {p p' : ProjectId} (hp : PlainProject p)
    (hp' : PlainProject p') (hne : p' ≠ p) (data : TimeseriesBatch) {core : CoreService}
    (hv : AllValid core.window.sequenceWindows) :
    (∀ s, retained p s (processHotIngest capacity p' data core).1.window =
        retained p s core.window) ∧
      (processHotIngest capacity p' data core).1.window.updateGenerations.find p =
        core.window.updateGenerations.find p := by
  by_cases hacc : Accepted p' data none
  swap
  · rw [process_rejected hacc]
    exact ⟨fun _ => rfl, rfl⟩
  have hnot : ∀ s, ¬ hasPrefix (scopePrefix (effectiveProject p')) (scopedSequenceKey p s) = true := by
    intro s hpre
    unfold scopedSequenceKey at hpre
    rw [effectiveProject_of_ne hp.1, effectiveProject_of_ne hp'.1] at hpre
    exact hne ((hasPrefix_scoped_iff hp' hp).mp hpre)
  constructor
  · intro s
    have hupdate : retained p s (hotUpdate p' data core.window).1 = retained p s core.window := by
      rw [retained, hotUpdate, update_contentOf hacc hv, if_neg (hnot s)]
      rfl
    rw [← hupdate]
    exact (process_writes capacity p' data core).kept (hotUpdate_valid p' data hv) _
      (fun t _ => scopedKey_ne hp hp' hne s t) (fun hpre => absurd hpre (hnot s))
  · rw [(process_writes capacity p' data core).updateGenerations, hotUpdate,
      update_updateGenerations hacc, effectiveProject_of_ne hp'.1, find_put_of_ne hne.symm]

/-- A batch keeps the invariant. -/
theorem CoreInv.ingest {core : CoreService} (h : CoreInv core) (capacity : Nat) {p : ProjectId}
    (hp : PlainProject p) (data : TimeseriesBatch) :
    CoreInv (processHotIngest capacity p data core).1 := by
  obtain ⟨hstates, hothers⟩ := process_states capacity p data core
  have hconfigs := process_configs capacity p data core
  refine ⟨process_valid capacity p data h.valid, fun p' => ?_, ?_, fun p' hp' id => ?_,
    fun p' id => ?_, fun p' s hp' hs q hq => ?_⟩
  · rw [process_windowSize]
    exact h.sizes p'
  · rw [hconfigs]
    exact h.rules
  · by_cases he : p' = p
    · subst he
      obtain ⟨hle, hnext⟩ := process_generation capacity hp.1 data core
      rw [hstates]
      cases hpub : published capacity p' data core with
      | none => exact le_trans (h.generations p' hp id) hle
      | some after =>
          have hacc := published_accepted hpub
          have hgen := (batch_reported hacc h.valid).updateGeneration
          rw [effectiveProject_of_ne hp.1] at hgen
          rw [hnext hacc]
          exact published_invariant (P := fun state => state.updateGeneration ≤ _) id
            (fun execution _ hs => publishedState_generation (le_of_eq hgen) execution _ hs)
            (le_trans (h.generations p' hp id) (le_nextGeneration _)) hpub
    · rw [hothers p' he, (process_elsewhere capacity hp' hp (Ne.symm he) data h.valid).2]
      exact h.generations p' hp' id
  · by_cases he : p' = p
    · subst he
      rw [hstates]
      cases hpub : published capacity p' data core with
      | none => exact h.untouched p' id
      | some after =>
          refine published_invariant
            (P := fun state => state.initialized = false → state.violations = []) id
            (fun execution state hs => ?_) (h.untouched p' id) hpub
          unfold publishedState
          split
          · exact hs
          · exact fun h => nomatch h
    · rw [hothers p' he]
      exact h.untouched p' id
  · rw [hconfigs] at hs
    by_cases he : p' = p
    · subst he
      by_cases hacc : Accepted p' data none
      · rw [process_retained hacc h.valid hs] at hq
        rcases mem_of_mem_assignAll _ (List.mem_filter.mp hq).1
          with hnew | hold
        · obtain ⟨hq1, hq2⟩ := mem_incomingFor.mp hnew
          have hpoint := hacc.points q hq1
          rw [effectiveProject_of_ne hp.1] at hpoint
          exact ⟨hq2, hpoint⟩
        · exact h.points p' s hp hs q hold
      · rw [process_rejected hacc] at hq
        exact h.points p' s hp hs q hq
    · rw [(process_elsewhere capacity hp' hp (Ne.symm he) data h.valid).1] at hq
      exact h.points p' s hp' hs q hq

/-- A sync keeps the invariant. -/
theorem CoreInv.sync {core : CoreService} (h : CoreInv core) {p : ProjectId}
    (hp : PlainProject p) (items : List RuntimeConstraintConfig) :
    CoreInv (syncConstraints p items core).1 := by
  obtain ⟨hrules, hwindow, hderived, hstates⟩ := sync_spec hp items core h.rules
  have hempty : ∀ id, stateOf id (KeyedTable.empty : Table String CachedConstraintState) = {} :=
    fun _ => rfl
  refine ⟨?_, fun p' => ?_, hrules, fun p' hp' id => ?_, fun p' id hno => ?_,
    fun p' s hp' hs q hq => ?_⟩
  · rw [hwindow]
    exact h.valid
  · rw [hwindow]
    exact h.sizes p'
  · rw [hwindow]
    rcases hstates p' with he | he
    · rw [he]
      exact h.generations p' hp' id
    · rw [he, hempty]
      exact Nat.zero_le _
  · rcases hstates p' with he | he
    · rw [he] at hno ⊢
      exact h.untouched p' id hno
    · rw [he, hempty]
  · rw [hwindow] at hq
    rw [allDerivedSeries_congr p' hderived] at hs
    exact h.points p' s hp' hs q hq

theorem CoreInv.step {core : CoreService} (h : CoreInv core) (capacity : Nat)
    (action : CoreAction) (hc : Carried action) : CoreInv (coreStep capacity core action) := by
  cases action with
  | ingest p data => exact h.ingest capacity hc.1 data
  | sync p items => exact h.sync hc items

/-- A service that has received nothing yet. -/
theorem coreInv_start {registry : RuntimeConfigRegistry}
    (h : RulesFiled registry.constraints) : CoreInv { configs := registry } := by
  refine ⟨allValid_empty, fun p => ?_, h, fun _ _ _ => Nat.zero_le _, fun _ _ _ => rfl,
    fun p s _ _ q hq => nomatch hq⟩
  show 0 < kDefaultWindowSizeMs
  decide

theorem coreInv_run {core : CoreService} (h : CoreInv core) (capacity : Nat)
    {actions : List CoreAction} (hc : ∀ action ∈ actions, Carried action) :
    CoreInv (run (coreStep capacity) core actions) :=
  run_invariant (fun _ action ha hi => hi.step capacity action ha) h hc

/-- No step changes the derived series. -/
theorem run_derived (capacity : Nat) (core : CoreService) (actions : List CoreAction) :
    (run (coreStep capacity) core actions).configs.derivedSeries =
      core.configs.derivedSeries := by
  induction actions generalizing core with
  | nil => rfl
  | cons action actions ih =>
      rw [run_cons, ih]
      cases action with
      | ingest p data =>
          show (processHotIngest capacity p data core).1.configs.derivedSeries = _
          rw [process_configs]
      | sync p items =>
          show (syncConstraints p items core).1.configs.derivedSeries = _
          unfold syncConstraints upsertConstraints
          cases upsertConstraintItems (snapshotProject p) core.configs items []
            core.configs.constraints with
          | error message => rfl
          | ok constraints => rfl

/-- **Under the invariant every enabled rule is set up.** -/
theorem CoreInv.setup {core : CoreService} (h : CoreInv core) {p : ProjectId}
    (hp : PlainProject p) {r : ConstraintRule} {s : SequenceId}
    (hr : r ∈ allEnabledConstraints p core.configs) (hreads : SampleRuleOn r s)
    (hs : s ∉ derivedIds p core.configs) : RuleSetup p r s core :=
  ⟨hp.1, h.valid, h.sizes p, (enabled_spec hp h.rules).1, hr, hreads, hs,
    h.generations p hp r.constraintId⟩

end CoreRun
