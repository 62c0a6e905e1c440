import TimeSeriesEngine.SilencedClause

/-!
# Rules that change under a batch

A batch takes its rules from the registry, evaluates them and publishes what it found;
a synchronisation stores new rules and then erases the cache.  The steps of any number
of both interleave here.  Every cached violation carries the rule it was computed with,
beside the cache the service keeps.

* `LabelledCache`, `publishLabelled` — the cache with its labels;
* `SyncState`, `SyncStep`, `after` — the requests of one project, step by step;
* `up_to_date` — the rules of all cached violations are the stored ones in every run
  whose publications file no violation of another rule;
* `outdated_violation_survives` — a run in which one does.
-/

namespace OutdatedRules

open TseTypes KeyedTable OrderedSeries HotWindow WindowUpdate ConstraintCheck Registry
open UpdateRange DerivedSeries HotIngest ConstraintScan RuleGroups IngestStep RegistryReferences
open PersistentReport CoreRun SilencedClause ComputedViolations Transition

/-! ## The cache with its labels -/

/-- A cached violation and the rule it was computed with. -/
abbrev Label := ConstraintViolation × ConstraintRule

/-- The cache, and which rule each of its violations was computed with. -/
structure LabelledCache where
  states : Table String CachedConstraintState := KeyedTable.empty
  labels : String → List Label := fun _ => []

/-- The publication keeps the cached violation. -/
def isKept (update : WindowUpdateResult) (range : Option IncrementalRange)
    (violation : ConstraintViolation) : Bool :=
  !(keptViolations update range [violation]).isEmpty

/-- The publication leaves the entry alone: a newer update has written it. -/
def isStale (update : WindowUpdateResult) (state : CachedConstraintState) : Bool :=
  state.initialized && decide (update.updateGeneration < state.updateGeneration)

/-- `publishRule`, with labels. -/
def labelRule (update : WindowUpdateResult) (execution : ConstraintGroupExecution)
    (cache : LabelledCache) (rule : ConstraintRule) : LabelledCache where
  states := publishRule update execution cache.states rule
  labels := fun id =>
    if id = rule.constraintId ∧ isStale update (stateOf id cache.states) = false then
      assignAll (fun label : Label => label.1.anchorTime)
        ((execution.result.violations.filter fun violation => violation.constraintId = id).map
          fun violation => (violation, rule))
        ((cache.labels id).filter fun label => isKept update execution.range label.1)
    else cache.labels id

/-- `publishExecutions`, with labels. -/
def publishLabelled (update : WindowUpdateResult) (executions : List ConstraintGroupExecution)
    (cache : LabelledCache) : LabelledCache :=
  executions.foldl (fun cache execution => execution.rules.foldl (labelRule update execution) cache)
    cache

/-- The labels are those of the cached violations. -/
def LabelledCache.Faithful (cache : LabelledCache) : Prop :=
  ∀ id, (cache.labels id).map Prod.fst = (stateOf id cache.states).violations

/-- The loop over the cached violations is a filter. -/
theorem keptViolations_eq (update : WindowUpdateResult) (range : Option IncrementalRange)
    (violations : List ConstraintViolation) :
    keptViolations update range violations = violations.filter (isKept update range) := by
  induction violations with
  | nil =>
      cases range with
      | none => rfl
      | some range => rfl
  | cons violation violations ih =>
      cases range with
      | none =>
          rw [List.filter_cons_of_neg (by rw [isKept, keptViolations]; exact Bool.false_ne_true), ← ih]
          rfl
      | some range =>
          rw [keptViolations] at ih ⊢
          rw [List.filter_filter] at ih ⊢
          rw [List.filter_cons, List.filter_cons, ih]
          refine if_congr ?_ rfl rfl
          rw [isKept, keptViolations, List.filter_filter, List.filter_cons]
          split
          · rename_i h
            rw [h]
            exact iff_of_true rfl rfl
          · rename_i h
            exact iff_of_false h Bool.false_ne_true

/-- A publication, with its two conditions. -/
theorem publishedState_eq (update : WindowUpdateResult) (execution : ConstraintGroupExecution)
    (id : String) (state : CachedConstraintState) :
    publishedState update execution id state =
      if isStale update state = true then state
      else
        { violations :=
            assignAll ConstraintViolation.anchorTime
              (execution.result.violations.filter fun violation => violation.constraintId = id)
              (state.violations.filter (isKept update execution.range))
          updateGeneration := update.updateGeneration
          initialized := true } := by
  rw [← keptViolations_eq]
  rfl

/-- One rule's publication, at any entry. -/
theorem stateOf_labelRule (update : WindowUpdateResult) (execution : ConstraintGroupExecution)
    (cache : LabelledCache) (rule : ConstraintRule) (id : String) :
    stateOf id (labelRule update execution cache rule).states =
      if id = rule.constraintId then publishedState update execution id (stateOf id cache.states)
      else stateOf id cache.states := by
  show stateOf id (publishRule update execution cache.states rule) = _
  rw [stateOf_publishRule]
  by_cases hid : id = rule.constraintId
  · rw [if_pos hid, if_pos hid, hid]
  · rw [if_neg hid, if_neg hid]

/-- Publishing one rule keeps the labels faithful. -/
theorem LabelledCache.Faithful.labelRule {cache : LabelledCache} (h : cache.Faithful)
    (update : WindowUpdateResult) (execution : ConstraintGroupExecution) (rule : ConstraintRule) :
    (labelRule update execution cache rule).Faithful := by
  intro id
  rw [stateOf_labelRule]
  show List.map Prod.fst (if _ then _ else _) = _
  by_cases hid : id = rule.constraintId
  · rw [if_pos hid, publishedState_eq]
    by_cases hstale : isStale update (stateOf id cache.states) = true
    · rw [if_neg fun hfresh => absurd (hfresh.2.symm.trans hstale) Bool.false_ne_true, if_pos hstale]
      exact h id
    · have hkey : ∀ label : Label, label.1.anchorTime = label.1.anchorTime := fun _ => rfl
      rw [if_pos ⟨hid, Bool.eq_false_iff.mpr hstale⟩, if_neg hstale,
        @map_assignAll _ _ _ _ _ ConstraintViolation.anchorTime Prod.fst hkey]
      show _ = assignAll ConstraintViolation.anchorTime _ _
      rw [← h id, List.filter_map, List.map_map]
      refine congrArg (fun xs => assignAll _ xs _) ?_
      exact List.map_id _
  · rw [if_neg hid, if_neg fun hfresh => hid hfresh.1]
    exact h id

/-- A stale entry stays stale. -/
theorem isStale_labelRule {update : WindowUpdateResult} {cache : LabelledCache} {id : String}
    (h : isStale update (stateOf id cache.states) = true) (execution : ConstraintGroupExecution)
    (rule : ConstraintRule) :
    isStale update (stateOf id (labelRule update execution cache rule).states) = true := by
  rw [stateOf_labelRule]
  split
  · rw [publishedState_eq, if_pos h]
    exact h
  · exact h

/-- What a publication files under an id. -/
def Files (update : WindowUpdateResult) (executions : List ConstraintGroupExecution)
    (cache : LabelledCache) (id : String) (label : Label) : Prop :=
  isStale update (stateOf id cache.states) = false ∧ ∃ execution ∈ executions,
    label.2 ∈ execution.rules ∧ label.2.constraintId = id ∧
      label.1 ∈ execution.result.violations ∧ label.1.constraintId = id

/-- Publishing the rules of a group. -/
theorem labelRules_spec (update : WindowUpdateResult) (execution : ConstraintGroupExecution)
    (rules : List ConstraintRule) (hrules : rules ⊆ execution.rules) {cache : LabelledCache}
    (h : cache.Faithful) :
    (rules.foldl (labelRule update execution) cache).Faithful ∧
      (rules.foldl (labelRule update execution) cache).states =
        rules.foldl (publishRule update execution) cache.states ∧
      (∀ id, isStale update (stateOf id cache.states) = true →
        isStale update (stateOf id (rules.foldl (labelRule update execution) cache).states) = true) ∧
      ∀ id, ∀ label ∈ (rules.foldl (labelRule update execution) cache).labels id,
        label ∈ cache.labels id ∨ Files update [execution] cache id label := by
  induction rules generalizing cache with
  | nil => exact ⟨h, rfl, fun _ hstale => hstale, fun _ _ hlabel => Or.inl hlabel⟩
  | cons rule rules ih =>
      obtain ⟨hfaithful, hstates, hstale, hlabels⟩ :=
        ih (fun other hother => hrules (List.mem_cons_of_mem _ hother)) (h.labelRule update execution rule)
      refine ⟨hfaithful, hstates, ?_, ?_⟩
      · intro id hold
        exact hstale id (isStale_labelRule hold execution rule)
      · intro id label hlabel
        rcases hlabels id label hlabel with hbefore | ⟨hfresh, hfiled⟩
        · change label ∈ (if _ then _ else _) at hbefore
          split at hbefore
          · rename_i hcond
            rcases mem_of_mem_assignAll _ hbefore with hnew | hkept
            · obtain ⟨violation, hviolation, rfl⟩ := List.mem_map.mp hnew
              obtain ⟨hmem, hid⟩ := List.mem_filter.mp hviolation
              exact Or.inr ⟨hcond.2, execution, List.mem_singleton.mpr rfl,
                hrules (List.mem_cons_self ..), hcond.1.symm, hmem, of_decide_eq_true hid⟩
            · exact Or.inl (List.mem_filter.mp hkept).1
          · exact Or.inl hbefore
        · refine Or.inr ⟨?_, hfiled⟩
          by_contra hold
          rw [isStale_labelRule (eq_true_of_ne_false hold) execution rule] at hfresh
          cases hfresh

/-- A publication with labels: the cache of the service, and where every label comes from. -/
theorem publishLabelled_spec (update : WindowUpdateResult)
    (executions : List ConstraintGroupExecution) {cache : LabelledCache} (h : cache.Faithful) :
    (publishLabelled update executions cache).Faithful ∧
      (publishLabelled update executions cache).states =
        publishExecutions update executions cache.states ∧
      ∀ id, ∀ label ∈ (publishLabelled update executions cache).labels id,
        label ∈ cache.labels id ∨ Files update executions cache id label := by
  induction executions generalizing cache with
  | nil => exact ⟨h, rfl, fun _ _ hlabel => Or.inl hlabel⟩
  | cons execution executions ih =>
      obtain ⟨hfaithful, hstates, hstale, hlabels⟩ :=
        labelRules_spec update execution execution.rules (List.Subset.refl _) h
      obtain ⟨hfaithful', hstates', hlabels'⟩ := ih hfaithful
      refine ⟨hfaithful', ?_, ?_⟩
      · show (publishLabelled update executions _).states = _
        rw [hstates', hstates]
        rfl
      · intro id label hlabel
        rcases hlabels' id label hlabel with hbefore | ⟨hfresh, later, hlater, hfiled⟩
        · rcases hlabels id label hbefore with hold | ⟨hfresh, one, hone, hfiled⟩
          · exact Or.inl hold
          · obtain rfl := List.mem_singleton.mp hone
            exact Or.inr ⟨hfresh, one, List.mem_cons_self .., hfiled⟩
        · refine Or.inr ⟨?_, later, List.mem_cons_of_mem _ hlater, hfiled⟩
          by_contra hold
          rw [hstale id (eq_true_of_ne_false hold)] at hfresh
          cases hfresh

/-! ## The requests of one project -/

/-- Where a request stands between two of its steps. -/
inductive Phase where
  | idle
  /-- `syncConstraints`: the rules are stored, the cache is not yet erased. -/
  | forgetting
  /-- `processHotIngest`: the enabled rules are taken. -/
  | snapshot (registry : RuntimeConfigRegistry) (update : WindowUpdateResult)
  | prepared (plan : CheckPlan) (update : WindowUpdateResult)
  | evaluated (update : WindowUpdateResult) (executions : List ConstraintGroupExecution)

/-- The registry, the cache, and where the requests are. -/
structure SyncState where
  registry : RuntimeConfigRegistry := {}
  cache : LabelledCache := {}
  requests : Nat → Phase := fun _ => .idle

/-- A request goes on. -/
def SyncState.setPhase (state : SyncState) (request : Nat) (phase : Phase) : SyncState :=
  { state with requests := fun other => if other = request then phase else state.requests other }

/-- One section between two lock operations. -/
inductive SyncStep where
  /-- `upsertConstraints`, under the registry's lock. -/
  | upsert (request : Nat) (items : List RuntimeConstraintConfig)
  /-- The erase under `constraint_state_mutex_`. -/
  | forget (request : Nat)
  /-- Any change of the configuration but of its rules. -/
  | configure (registry : RuntimeConfigRegistry)
  | snapshot (request : Nat) (update : WindowUpdateResult)
  /-- The grouping, with the cache read under `constraint_state_mutex_`. -/
  | prepare (request : Nat)
  | evaluate (request : Nat) (executions : List ConstraintGroupExecution)
  /-- The publication under `constraint_state_mutex_`. -/
  | publish (request : Nat)
  /-- The return, also before anything was published. -/
  | leave (request : Nat)

/-- The state behind a step. -/
def after (p : ProjectId) (state : SyncState) : SyncStep → SyncState
  | .upsert request items =>
      let (registry, result) := upsertConstraints p items state.registry
      if isSuccessful result.code then
        { state with registry := registry }.setPhase request .forgetting
      else state
  | .forget request => { state with cache := {} }.setPhase request .idle
  | .configure registry => { state with registry := registry }
  | .snapshot request update => state.setPhase request (.snapshot state.registry update)
  | .prepare request =>
      match state.requests request with
      | .snapshot registry update =>
          state.setPhase request (.prepared (prepareCheck p registry update state.cache.states) update)
      | _ => state
  | .evaluate request executions =>
      match state.requests request with
      | .prepared _ update => state.setPhase request (.evaluated update executions)
      | _ => state
  | .publish request =>
      match state.requests request with
      | .evaluated update executions =>
          { state with cache := publishLabelled update executions state.cache }.setPhase request .idle
      | _ => state
  | .leave request => state.setPhase request .idle

/-- One execution of each group and of each aggregate, on the windows and the
    configuration of any moments. -/
def Executed (capacity : Nat) (p : ProjectId) (plan : CheckPlan)
    (executions : List ConstraintGroupExecution) : Prop :=
  ∃ grouped aggregated, executions = grouped ++ aggregated ∧
    List.Forall₂ (fun group execution => ∃ registry service,
      runGroup capacity p registry plan.enabledRules service group = .ok execution)
      plan.groups grouped ∧
    List.Forall₂ (fun rule execution => ∃ service,
      (runAggregate p plan.enabledRules rule service).2 = execution) plan.aggregateRules aggregated

/-- The step is the request's next one. -/
def Enabled (capacity : Nat) (p : ProjectId) (state : SyncState) : SyncStep → Prop
  | .upsert request _ => state.requests request = .idle
  | .forget request => state.requests request = .forgetting
  | .configure registry => registry.constraints = state.registry.constraints
  | .snapshot request _ => state.requests request = .idle
  | .prepare request => ∃ registry update, state.requests request = .snapshot registry update
  | .evaluate request executions => ∃ plan update,
      state.requests request = .prepared plan update ∧ Executed capacity p plan executions
  | .publish request => ∃ update executions,
      state.requests request = .evaluated update executions ∧ failedExecution executions = none
  | .leave request => state.requests request ≠ .forgetting

/-- The rule stands under its id. -/
def Stored (p : ProjectId) (registry : RuntimeConfigRegistry) (rule : ConstraintRule) : Prop :=
  ∃ config, registry.constraints.find (scopedKey p rule.constraintId) = some config ∧
    config.rule = rule

/-- Some request has changed the rules and not yet dropped the cache. -/
def Forgetting (state : SyncState) : Prop := ∃ request, state.requests request = .forgetting

/-- A publication files no violation of a rule that is not the stored one, unless an
    erase is still to come. -/
def FilesCurrent (p : ProjectId) (state : SyncState) : SyncStep → Prop
  | .publish request => Forgetting state ∨ ∀ update executions,
      state.requests request = .evaluated update executions →
        ∀ id label, Files update executions state.cache id label → Stored p state.registry label.2
  | _ => True

/-- All requests have finished. -/
def Finished (state : SyncState) : Prop := ∀ request, state.requests request = .idle

/-- Every cached violation was computed with the rule stored under its id. -/
def UpToDate (p : ProjectId) (state : SyncState) : Prop :=
  state.cache.Faithful ∧ ∀ id, ∀ label ∈ state.cache.labels id,
    label.2.constraintId = id ∧ ComputedWith label.2 label.1 ∧ Stored p state.registry label.2

@[simp] theorem setPhase_self (state : SyncState) (request : Nat) (phase : Phase) :
    (state.setPhase request phase).requests request = phase := if_pos rfl

theorem setPhase_other (state : SyncState) {request other : Nat} (phase : Phase)
    (h : other ≠ request) :
    (state.setPhase request phase).requests other = state.requests other := if_neg h

/-- The request that takes the step. -/
def SyncStep.request : SyncStep → Option Nat
  | .upsert request _ | .forget request | .snapshot request _ | .prepare request
  | .evaluate request _ | .publish request | .leave request => some request
  | .configure _ => none

/-- A step moves its own request only. -/
theorem requests_after {p : ProjectId} {state : SyncState} {step : SyncStep} {other : Nat}
    (h : step.request ≠ some other) : (after p state step).requests other = state.requests other := by
  have hmoved : ∀ (moved : SyncState) (request : Nat) (phase : Phase), some request ≠ some other →
      (moved.setPhase request phase).requests other = moved.requests other :=
    fun moved request phase hne => setPhase_other moved phase fun heq => hne (congrArg some heq.symm)
  cases step with
  | upsert request items =>
      rw [after]
      simp only
      split
      · exact hmoved _ request _ h
      · rfl
  | forget request => exact hmoved _ request _ h
  | configure registry => rfl
  | snapshot request update => exact hmoved _ request _ h
  | prepare request =>
      rw [after]
      split
      · exact hmoved _ request _ h
      · rfl
  | evaluate request executions =>
      rw [after]
      split
      · exact hmoved _ request _ h
      · rfl
  | publish request =>
      rw [after]
      split
      · exact hmoved _ request _ h
      · rfl
  | leave request => exact hmoved _ request _ h

theorem requests_run {p : ProjectId} {state : SyncState} {steps : List SyncStep} {other : Nat}
    (h : ∀ step ∈ steps, step.request ≠ some other) :
    (run (after p) state steps).requests other = state.requests other :=
  @run_invariant _ _ (after p) (fun reached => reached.requests other = state.requests other)
    (fun step : SyncStep => step.request ≠ some other)
    (fun _ _ hstep hreached => (requests_after hstep).trans hreached) state rfl steps h

/-! ## What every run keeps -/

/-- The label's rule has the id, and the violation is one of that rule. -/
def Genuine (id : String) (label : Label) : Prop :=
  label.2.constraintId = id ∧ ComputedWith label.2 label.1

/-- What a request carries from one step to the next. -/
def PhaseOk (p : ProjectId) : Phase → Prop
  | .snapshot registry _ => Entries (UnderOwnId p) registry.constraints
  | .prepared plan _ => ∀ group ∈ plan.groups, (group.rules.map ConstraintRule.constraintId).Nodup
  | .evaluated _ executions => ∀ execution ∈ executions,
      (execution.rules.map ConstraintRule.constraintId).Nodup ∧
        FromRules execution.rules execution.result.violations
  | _ => True

/-- The invariant of a run. -/
structure SyncInv (p : ProjectId) (state : SyncState) : Prop where
  rules : Entries (UnderOwnId p) state.registry.constraints
  requests : ∀ request, PhaseOk p (state.requests request)
  faithful : state.cache.Faithful
  genuine : ∀ id, ∀ label ∈ state.cache.labels id, Genuine id label
  current : Forgetting state ∨
    ∀ id, ∀ label ∈ state.cache.labels id, Stored p state.registry label.2

theorem faithful_empty : LabelledCache.Faithful {} := by
  intro id
  show [] = (stateOf id KeyedTable.empty).violations
  rfl

theorem syncInv_start (p : ProjectId) : SyncInv p {} where
  rules := entries_empty
  requests _ := trivial
  faithful := faithful_empty
  genuine _ _ hlabel := absurd hlabel List.not_mem_nil
  current := Or.inr fun _ _ hlabel => absurd hlabel List.not_mem_nil

/-- A request's phase is the only thing that changes. -/
theorem phases_setPhase {p : ProjectId} {state : SyncState}
    (h : ∀ request, PhaseOk p (state.requests request)) {request : Nat} {phase : Phase}
    (hphase : PhaseOk p phase) (other : Nat) :
    PhaseOk p ((state.setPhase request phase).requests other) := by
  by_cases hother : other = request
  · rw [hother, setPhase_self]
    exact hphase
  · rw [setPhase_other state phase hother]
    exact h other

/-- An erase that is still to come stays so while another request goes on. -/
theorem forgetting_setPhase {state : SyncState} {request : Nat} {phase : Phase}
    (hrequest : state.requests request ≠ .forgetting) (h : Forgetting state) :
    Forgetting (state.setPhase request phase) := by
  obtain ⟨other, hother⟩ := h
  refine ⟨other, ?_⟩
  rw [setPhase_other]
  · exact hother
  · intro heq
    rw [heq] at hother
    exact hrequest hother

/-- A step of one batch that leaves registry and cache alone. -/
theorem SyncInv.setPhase {p : ProjectId} {state : SyncState} (h : SyncInv p state) {request : Nat}
    {phase : Phase} (hrequest : state.requests request ≠ .forgetting) (hphase : PhaseOk p phase) :
    SyncInv p (state.setPhase request phase) where
  rules := h.rules
  requests := phases_setPhase h.requests hphase
  faithful := h.faithful
  genuine := h.genuine
  current := h.current.imp (forgetting_setPhase hrequest) fun hcurrent => hcurrent

/-- Inserting rules files them under their ids. -/
theorem upsert_entries {p : ProjectId} (hp : p ≠ "") {items : List RuntimeConstraintConfig}
    {registry : RuntimeConfigRegistry} (h : Entries (UnderOwnId p) registry.constraints) :
    Entries (UnderOwnId p) (upsertConstraints p items registry).1.constraints := by
  rw [upsertConstraints]
  cases hitems : upsertConstraintItems (snapshotProject p) registry items []
      registry.constraints with
  | error message => exact h
  | ok constraints =>
      refine upsertConstraintItems_entries (fun item _ _ hsees => ?_) h hitems
      rw [snapshotProject, effectiveProject_of_ne hp]

/-- The first section of a sync keeps the invariant. -/
theorem SyncInv.upsert {p : ProjectId} (hp : p ≠ "") {state : SyncState} (h : SyncInv p state)
    (request : Nat) (items : List RuntimeConstraintConfig) :
    SyncInv p (after p state (.upsert request items)) := by
  have hrules : Entries (UnderOwnId p)
      (upsertConstraints p items state.registry).1.constraints := upsert_entries hp h.rules
  rw [after]
  simp only
  by_cases hok : isSuccessful (upsertConstraints p items state.registry).2.code = true
  · rw [if_pos hok]
    exact
      { rules := hrules
        requests := phases_setPhase h.requests trivial
        faithful := h.faithful
        genuine := h.genuine
        current := Or.inl ⟨request, setPhase_self _ _ _⟩ }
  · rw [if_neg hok]
    exact h

theorem SyncInv.forget {p : ProjectId} {state : SyncState} (h : SyncInv p state) (request : Nat) :
    SyncInv p (after p state (.forget request)) where
  rules := h.rules
  requests := phases_setPhase h.requests trivial
  faithful := faithful_empty
  genuine _ _ hlabel := absurd hlabel List.not_mem_nil
  current := Or.inr fun _ _ hlabel => absurd hlabel List.not_mem_nil

theorem SyncInv.configure {p : ProjectId} {state : SyncState} (h : SyncInv p state)
    {registry : RuntimeConfigRegistry} (heq : registry.constraints = state.registry.constraints) :
    SyncInv p (after p state (.configure registry)) where
  rules := by
    show Entries (UnderOwnId p) registry.constraints
    rw [heq]
    exact h.rules
  requests := h.requests
  faithful := h.faithful
  genuine := h.genuine
  current := by
    refine h.current.imp (fun hforgetting => hforgetting) fun hcurrent id label hlabel => ?_
    show ∃ config, registry.constraints.find _ = some config ∧ _
    rw [heq]
    exact hcurrent id label hlabel

/-- The groups of a plan are parts of the enabled rules, which have distinct ids. -/
theorem prepared_ok {p : ProjectId} {registry : RuntimeConfigRegistry}
    (h : Entries (UnderOwnId p) registry.constraints) (update : WindowUpdateResult)
    (states : Table String CachedConstraintState) :
    PhaseOk p (.prepared (prepareCheck p registry update states) update) := by
  have hids : ((allEnabledConstraints p registry).map ConstraintRule.constraintId).Nodup :=
    (@enabled_of_own _ _ (fun _ => True) fun key config hfind hsees =>
      ⟨h key config hfind hsees, trivial⟩).1
  have hperm := (plan_rules_perm p registry update states).map ConstraintRule.constraintId
  have hnodup := hperm.nodup_iff.mpr (evaluatedRules_nodup hids update states)
  intro group hgroup
  refine hnodup.sublist (List.Sublist.map _ ?_)
  exact (List.sublist_flatten_of_mem (List.mem_map_of_mem hgroup)).trans
    (List.sublist_append_left _ _)

/-- Every result of a list of steps is the result of one of them. -/
theorem exists_of_forall₂_right {α β : Type} {R : α → β → Prop} {xs : List α} {ys : List β}
    (h : List.Forall₂ R xs ys) {y : β} (hy : y ∈ ys) : ∃ x ∈ xs, R x y := by
  induction h with
  | nil => exact absurd hy List.not_mem_nil
  | cons hhead htail ih =>
      rcases List.mem_cons.mp hy with rfl | hy
      · exact ⟨_, List.mem_cons_self .., hhead⟩
      · obtain ⟨x, hx, hrel⟩ := ih hy
        exact ⟨x, List.mem_cons_of_mem _ hx, hrel⟩

/-- Every execution evaluates rules with distinct ids, and finds violations of them only. -/
theorem evaluated_ok {capacity : Nat} {p : ProjectId} {plan : CheckPlan}
    {update : WindowUpdateResult} {executions : List ConstraintGroupExecution}
    (h : PhaseOk p (.prepared plan update)) (hrun : Executed capacity p plan executions) :
    PhaseOk p (.evaluated update executions) := by
  obtain ⟨grouped, aggregated, rfl, hgroups, haggregates⟩ := hrun
  intro execution hexecution
  rcases List.mem_append.mp hexecution with hmem | hmem
  · obtain ⟨group, hgroup, registry, service, heq⟩ := exists_of_forall₂_right hgroups hmem
    obtain ⟨hrules, hfrom⟩ := runGroup_computed heq
    rw [hrules]
    exact ⟨h group hgroup, hfrom⟩
  · obtain ⟨rule, -, service, rfl⟩ := exists_of_forall₂_right haggregates hmem
    exact ⟨List.nodup_singleton _, (runAggregate_computed p plan.enabledRules rule service).2⟩

/-- What a publication files comes from the rule it is filed with. -/
theorem genuine_of_files {p : ProjectId} {update : WindowUpdateResult}
    {executions : List ConstraintGroupExecution} (h : PhaseOk p (.evaluated update executions))
    {cache : LabelledCache} {id : String} {label : Label}
    (hfiled : Files update executions cache id label) : Genuine id label := by
  obtain ⟨violation, filed⟩ := label
  obtain ⟨-, execution, hexecution, hrule, hid, hviolation, hfiledId⟩ := hfiled
  obtain ⟨hnodup, hfrom⟩ := h execution hexecution
  obtain ⟨rule, hmem, hcomputed⟩ := hfrom violation hviolation
  have hsame : rule.constraintId = filed.constraintId :=
    (hcomputed.id.symm.trans hfiledId).trans hid.symm
  obtain rfl := List.inj_on_of_nodup_map hnodup hmem hrule hsame
  exact ⟨hid, hcomputed⟩

/-- A publication keeps the invariant. -/
theorem SyncInv.publish {p : ProjectId} {state : SyncState} (h : SyncInv p state) {request : Nat}
    {update : WindowUpdateResult} {executions : List ConstraintGroupExecution}
    (hrequest : state.requests request = .evaluated update executions)
    (hfiles : Forgetting state ∨ ∀ id label, Files update executions state.cache id label →
      Stored p state.registry label.2) :
    SyncInv p ({ state with cache := publishLabelled update executions state.cache }.setPhase
      request .idle) := by
  obtain ⟨hfaithful, -, hlabels⟩ := publishLabelled_spec update executions h.faithful
  have hphase := h.requests request
  rw [hrequest] at hphase
  have hbusy : state.requests request ≠ .forgetting := by
    rw [hrequest]
    exact fun heq => Phase.noConfusion heq
  have hkeeps : Forgetting state → Forgetting
      ({ state with cache := publishLabelled update executions state.cache }.setPhase
        request .idle) := forgetting_setPhase hbusy
  refine
    { rules := h.rules
      requests := phases_setPhase h.requests trivial
      faithful := hfaithful
      genuine := ?_
      current := ?_ }
  · intro id label hlabel
    rcases hlabels id label hlabel with hold | hfiled
    · exact h.genuine id label hold
    · exact genuine_of_files hphase hfiled
  · rcases h.current with hforgetting | hcurrent
    · exact Or.inl (hkeeps hforgetting)
    · refine hfiles.imp hkeeps fun hstored id label hlabel => ?_
      rcases hlabels id label hlabel with hold | hfiled
      · exact hcurrent id label hold
      · exact hstored id label hfiled

/-- Every step keeps the invariant. -/
theorem SyncInv.step {capacity : Nat} {p : ProjectId} (hp : p ≠ "") {state : SyncState}
    {action : SyncStep} (henabled : Enabled capacity p state action)
    (hfiles : FilesCurrent p state action) (h : SyncInv p state) :
    SyncInv p (after p state action) := by
  cases action with
  | upsert request items => exact h.upsert hp request items
  | forget request => exact h.forget request
  | configure registry => exact h.configure henabled
  | snapshot request update =>
      have hidle : state.requests request = .idle := henabled
      refine h.setPhase ?_ h.rules
      rw [hidle]
      exact fun heq => Phase.noConfusion heq
  | prepare request =>
      obtain ⟨registry, update, hrequest⟩ := henabled
      have hphase := h.requests request
      rw [hrequest] at hphase
      rw [after, hrequest]
      refine h.setPhase ?_ (prepared_ok hphase update _)
      rw [hrequest]
      exact fun heq => Phase.noConfusion heq
  | evaluate request executions =>
      obtain ⟨plan, update, hrequest, hrun⟩ := henabled
      have hphase := h.requests request
      rw [hrequest] at hphase
      rw [after, hrequest]
      refine h.setPhase ?_ (evaluated_ok hphase hrun)
      rw [hrequest]
      exact fun heq => Phase.noConfusion heq
  | publish request =>
      obtain ⟨update, executions, hrequest, -⟩ := henabled
      rw [after, hrequest]
      exact h.publish hrequest (hfiles.imp (fun hforgetting => hforgetting)
        fun hstored => hstored update executions hrequest)
  | leave request => exact h.setPhase henabled trivial

/-- **Every cached violation of a finished run was computed with the stored rule**, when
    no publication files a violation of another rule after the last erase. -/
theorem up_to_date (capacity : Nat) {p : ProjectId} (hp : p ≠ "") {steps : List SyncStep}
    (henabled : Admissible (after p) (Enabled capacity p) {} steps)
    (hfiles : Admissible (after p) (FilesCurrent p) {} steps)
    (hfinished : Finished (run (after p) {} steps)) : UpToDate p (run (after p) {} steps) := by
  have hinv : SyncInv p (run (after p) {} steps) :=
    admissible_invariant (fun _ _ hok h => h.step hp hok.1 hok.2) (syncInv_start p)
      (henabled.and hfiles)
  refine ⟨hinv.faithful, fun id label hlabel => ?_⟩
  obtain ⟨hid, hcomputed⟩ := hinv.genuine id label hlabel
  refine ⟨hid, hcomputed, ?_⟩
  rcases hinv.current with ⟨request, hrequest⟩ | hcurrent
  · rw [hfinished request] at hrequest
    cases hrequest
  · exact hcurrent id label hlabel

/-! ## What the constraint stage evaluates -/

/-- Each group has its execution. -/
theorem runGroups_forall₂ {capacity : Nat} {p : ProjectId} {registry : RuntimeConfigRegistry}
    {rules : List ConstraintRule} {service : WindowService} {groups : List ConstraintGroupSpec}
    {executions : List ConstraintGroupExecution}
    (h : runGroups capacity p registry rules service groups = .ok executions) :
    List.Forall₂ (fun group execution => ∃ registry service,
      runGroup capacity p registry rules service group = .ok execution) groups executions := by
  induction groups generalizing executions with
  | nil =>
      obtain rfl := Except.ok.inj h
      exact List.Forall₂.nil
  | cons group groups ih =>
      rw [runGroups] at h
      cases hone : runGroup capacity p registry rules service group with
      | error error =>
          rw [hone] at h
          cases h
      | ok execution =>
          cases hrest : runGroups capacity p registry rules service groups with
          | error error =>
              rw [hone, hrest] at h
              cases h
          | ok rest =>
              rw [hone, hrest] at h
              obtain rfl := Except.ok.inj h
              exact List.Forall₂.cons ⟨registry, service, hone⟩ (ih hrest)

/-- Each aggregate rule has its execution. -/
theorem runAggregates_forall₂ (p : ProjectId) (rules aggregate : List ConstraintRule)
    (service : WindowService) :
    List.Forall₂ (fun rule execution => ∃ service, (runAggregate p rules rule service).2 = execution)
      aggregate (runAggregates p rules aggregate service).2 := by
  induction aggregate generalizing service with
  | nil => exact List.Forall₂.nil
  | cons rule rest ih => exact List.Forall₂.cons ⟨service, rfl⟩ (ih _)

/-- What a batch evaluates on its own is one of these evaluations. -/
theorem executed_alone {capacity : Nat} {p : ProjectId} {registry : RuntimeConfigRegistry}
    {plan : CheckPlan} {service : WindowService} {grouped : List ConstraintGroupExecution}
    (h : runGroups capacity p registry plan.enabledRules service plan.groups = .ok grouped) :
    Executed capacity p plan
      (grouped ++ (runAggregates p plan.enabledRules plan.aggregateRules service).2) :=
  ⟨grouped, _, rfl, runGroups_forall₂ h, runAggregates_forall₂ p _ _ service⟩

/-! ## A rule that is raised while its batch is evaluated -/

/-- One rule on `s`. -/
def boundedRegistry : RuntimeConfigRegistry :=
  (upsertConstraints "p" [boundOn "r" "s" ""] twoInstances).1

/-- The bound of `r`, raised. -/
def raisedBound : RuntimeConstraintConfig :=
  { boundOn "r" "s" "" with
    rule := { (boundOn "r" "s" "").rule with upperBound := some (.finite 1000) } }

/-- The update with a value over the bound. -/
def highUpdate : WindowUpdateResult := (hotUpdate "p" highPoint {}).2

/-- What is checked behind it. -/
def highPlan : CheckPlan := prepareCheck "p" boundedRegistry highUpdate KeyedTable.empty

/-- What the check finds. -/
def highExecutions : List ConstraintGroupExecution :=
  (runGroups 4 "p" boundedRegistry highPlan.enabledRules (hotUpdate "p" highPoint {}).1
    highPlan.groups).toOption.getD []

/-- A synchronisation, and a batch up to its evaluation. -/
def evaluatedSteps : List SyncStep :=
  [.configure twoInstances, .upsert 0 [boundOn "r" "s" ""], .forget 0, .snapshot 1 highUpdate,
    .prepare 1, .evaluate 1 highExecutions]

theorem highExecutions_executed : Executed 4 "p" highPlan highExecutions := by
  have hrun : runGroups 4 "p" boundedRegistry highPlan.enabledRules (hotUpdate "p" highPoint {}).1
      highPlan.groups = .ok highExecutions := rfl
  have h := executed_alone hrun
  exact h

/-- The steps of the first `n` requests are none of a later one. -/
theorem others_of_early {steps : List SyncStep} {n other : Nat}
    (h : (steps.all fun step => step.request.all fun request => decide (request < n)) = true)
    (hother : n ≤ other) : ∀ step ∈ steps, step.request ≠ some other := by
  intro step hstep heq
  have hearly := List.all_eq_true.mp h step hstep
  rw [heq] at hearly
  have hlt : other < n := of_decide_eq_true hearly
  omega

theorem highExecutions_succeed : failedExecution highExecutions = none :=
  Option.isNone_iff_eq_none.mp (by decide +kernel)

/-- A sync and a batch, published at the end. -/
theorem up_to_date_published :
    UpToDate "p" (run (after "p") {} (evaluatedSteps ++ [.publish 1])) := by
  refine up_to_date 4 (by decide)
    ⟨rfl, rfl, rfl, rfl, ⟨_, _, rfl⟩, ⟨_, _, rfl, highExecutions_executed⟩,
      ⟨_, _, rfl, highExecutions_succeed⟩, trivial⟩
    ⟨trivial, trivial, trivial, trivial, trivial, trivial, Or.inr ?_, trivial⟩ ?_
  · intro update executions hphase id label hfiled
    obtain ⟨-, execution, hexecution, hrule, -⟩ := hfiled
    cases (show Phase.evaluated highUpdate highExecutions = .evaluated update executions from hphase)
    have hrules : highExecutions.map ConstraintGroupExecution.rules =
        [[(boundOn "r" "s" "").rule]] := rfl
    have hmem := List.mem_map_of_mem (f := ConstraintGroupExecution.rules) hexecution
    rw [hrules, List.mem_singleton] at hmem
    rw [hmem, List.mem_singleton] at hrule
    rw [hrule]
    exact ⟨_, rfl, rfl⟩
  · intro request
    rcases request with _ | _ | request
    · rfl
    · rfl
    · exact requests_run (others_of_early (n := 2) (by decide) (by omega))

/-- The batch takes the bound 50 and evaluates it; the bound becomes 1000 and the cache is
    erased; then the batch publishes its violation of the bound 50. -/
theorem outdated_violation_survives :
    let steps := evaluatedSteps ++ [.upsert 2 [raisedBound], .forget 2, .publish 1]
    let state := run (after "p") {} steps
    Admissible (after "p") (Enabled 4 "p") {} steps ∧ Finished state ∧
      ∃ violation ∈ (stateOf "r" state.cache.states).violations,
        ∀ rule, Stored "p" state.registry rule → rule.constraintId = "r" →
          ¬ ComputedWith rule violation := by
  intro steps state
  refine ⟨⟨rfl, rfl, rfl, rfl, ⟨_, _, rfl⟩, ⟨_, _, rfl, highExecutions_executed⟩, rfl, rfl,
    ⟨_, _, rfl, highExecutions_succeed⟩, trivial⟩, ?_, ?_⟩
  · intro request
    rcases request with _ | _ | _ | request
    · rfl
    · rfl
    · rfl
    · exact requests_run (others_of_early (n := 3) (by decide) (by omega))
  · have hbounds : (stateOf "r" state.cache.states).violations.map ConstraintViolation.upperBound =
        [some (.finite 50)] := by decide +kernel
    obtain ⟨violation, hviolation, hbound⟩ := List.mem_map.mp
      (hbounds.symm ▸ List.mem_singleton_self _)
    refine ⟨violation, hviolation, fun rule hstored hid hcomputed => ?_⟩
    obtain ⟨config, hfind, rfl⟩ := hstored
    rw [hid] at hfind
    have hraised : state.registry.constraints.find (scopedKey "p" "r") =
        some { raisedBound with projectId := "p" } := rfl
    obtain rfl := Option.some.inj (hraised.symm.trans hfind)
    rw [hcomputed.upperBound] at hbound
    revert hbound
    decide

end OutdatedRules
