import TimeSeriesEngine.CoreRun
import TimeSeriesEngine.PersistentReport

/-!
# Rule synchronisation and ongoing violations

A violated clause is reported again by every batch that leaves its sequences alone,
because its rules stay on record in the cache.  A rule synchronisation forgets the
cache of the whole project, also for the clauses it does not name, and a batch that
leaves their sequences alone selects none of their rules.

* `Ongoing`, `Silent` — the two phases of a clause nobody touches;
* `reported_again_iff` — after a report, a later batch reports the clause again
  exactly when no synchronisation came in between.
-/

namespace SilencedClause

open TseTypes KeyedTable OrderedSeries HotWindow WindowContent WindowUpdate ConstraintCheck
open Registry UpdateRange DerivedSeries HotIngest RuleGroups IngestStep RegistryReferences
open PersistentReport CoreRun Transition

/-- A batch reports the clause of an enabled rule. -/
def Reports (capacity : Nat) (p : ProjectId) (rule : ConstraintRule) (data : TimeseriesBatch)
    (core : CoreService) : Prop :=
  ∃ n, submitted capacity p data core = some n ∧ rule.constraintId ∈ n.constraintIds

/-- The enabled rules of the clause of a rule. -/
def ClauseRule (p : ProjectId) (rule : ConstraintRule) (core : CoreService)
    (other : ConstraintRule) : Prop :=
  other ∈ allEnabledConstraints p core.configs ∧ SameClause rule other

/-- A batch adds, corrects and evicts no point of a sequence. -/
def Untouched (p : ProjectId) (s : SequenceId) (data : TimeseriesBatch) (core : CoreService) :
    Prop :=
  Accepted p data none → (∀ q ∈ data.points, q.sequenceId ≠ s) ∧
    retained p s (hotUpdate p data core.window).1 = retained p s core.window

/-- The request is of the project. -/
def OfProject (p : ProjectId) : CoreAction → Prop
  | .ingest projectId _ => projectId = p
  | .sync projectId _ => projectId = p

/-- An action on a project that leaves alone the rules of a clause and their sequences. -/
def LeavesAlone (p : ProjectId) (rule : ConstraintRule) (clause : ConstraintRule → Prop)
    (core : CoreService) : CoreAction → Prop
  | .ingest projectId data =>
      projectId = p ∧ ∀ other, clause other → ∀ s ∈ mappedSequenceIds other,
        Untouched p s data core
  | .sync projectId items =>
      projectId = p ∧ isSuccessful (syncConstraints p items core).2.code = true ∧
        ∀ item ∈ items, ¬ SameClause rule item.rule ∧
          ∀ other, clause other → item.rule.constraintId ≠ other.constraintId

/-! ## What a run of one project keeps -/

/-- A rule the project reads stands under its own id. -/
def UnderOwnId (p : ProjectId) (key : String) (config : RuntimeConstraintConfig) : Prop :=
  hasPrefix (scopePrefix p) key = true → key = scopedKey p config.rule.constraintId

/-- The invariant of a run. -/
structure RunInv (p : ProjectId) (core : CoreService) : Prop where
  valid : AllValid core.window.sequenceWindows
  rules : Entries (UnderOwnId p) core.configs.constraints
  filed : Filed (cachedStates p core)

theorem RunInv.ids {p : ProjectId} {core : CoreService} (h : RunInv p core) :
    ((allEnabledConstraints p core.configs).map ConstraintRule.constraintId).Nodup :=
  (@enabled_of_own _ _ (fun _ => True) fun key config hfind hsees =>
    ⟨h.rules key config hfind hsees, trivial⟩).1

/-- The enabled rules of a registry filed by id. -/
theorem mem_enabled {p : ProjectId} {registry : RuntimeConfigRegistry}
    (h : Entries (UnderOwnId p) registry.constraints) {rule : ConstraintRule} :
    rule ∈ allEnabledConstraints p registry ↔
      ∃ config, registry.constraints.find (scopedKey p rule.constraintId) = some config ∧
        config.enabled = true ∧ config.rule = rule := by
  have hperm : (allEnabledConstraints p registry).Perm
      (((projectConfigs p registry.constraints).filter fun config => config.enabled).map
        fun config => config.rule) := List.perm_insertionSort _ _
  rw [hperm.mem_iff, List.mem_map]
  constructor
  · rintro ⟨config, hconfig, rfl⟩
    obtain ⟨hmem, henabled⟩ := List.mem_filter.mp hconfig
    obtain ⟨key, hkey, hfind⟩ := List.mem_filterMap.mp hmem
    refine ⟨config, ?_, henabled, rfl⟩
    rw [← h key config hfind (List.mem_filter.mp hkey).2]
    exact hfind
  · rintro ⟨config, hfind, henabled, rfl⟩
    refine ⟨config, List.mem_filter.mpr ⟨?_, henabled⟩, rfl⟩
    refine List.mem_filterMap.mpr ⟨scopedKey p config.rule.constraintId, ?_, hfind⟩
    refine List.mem_filter.mpr ⟨?_, sees_own p _⟩
    exact (registry.constraints.mem_keys _).mpr (by rw [hfind]; rfl)

/-- An upsert stores its items under their keys and keeps the rest. -/
theorem upsertConstraintItems_find {project : ProjectId} {registry : RuntimeConfigRegistry}
    {items : List RuntimeConstraintConfig} {seen : List String}
    {constraints out : Table String RuntimeConstraintConfig}
    (h : upsertConstraintItems project registry items seen constraints = .ok out) (key : String) :
    (∃ item ∈ items, key = scopedKey project item.rule.constraintId ∧
        out.find key = some { item with projectId := project }) ∨
      out.find key = constraints.find key := by
  induction items generalizing seen constraints with
  | nil =>
      cases h
      exact Or.inr rfl
  | cons item items ih =>
      rw [upsertConstraintItems] at h
      split at h
      · cases h
      split at h
      · cases h
      split at h
      · cases h
      rcases ih h with ⟨other, hother, hkey, hfind⟩ | hfind
      · exact Or.inl ⟨other, List.mem_cons_of_mem _ hother, hkey, hfind⟩
      · rw [find_put] at hfind
        split at hfind
        · rename_i hkey
          exact Or.inl ⟨item, List.mem_cons_self .., hkey, hfind⟩
        · exact Or.inr hfind

/-- What a successful synchronisation stores. -/
theorem sync_success {p : ProjectId} {items : List RuntimeConstraintConfig} {core : CoreService}
    (h : isSuccessful (syncConstraints p items core).2.code = true) :
    ∃ constraints, upsertConstraintItems (snapshotProject p) core.configs items []
        core.configs.constraints = .ok constraints ∧
      (syncConstraints p items core).1 =
        { core with
          configs := { core.configs with constraints := constraints }
          constraintStates := erase p core.constraintStates } := by
  unfold syncConstraints upsertConstraints at h ⊢
  cases hitems : upsertConstraintItems (snapshotProject p) core.configs items []
      core.configs.constraints with
  | error message =>
      rw [hitems] at h
      cases h
  | ok constraints => exact ⟨constraints, rfl, rfl⟩

/-- A sync that fails changes nothing. -/
theorem sync_failure {p : ProjectId} {items : List RuntimeConstraintConfig} {core : CoreService}
    (h : ¬ isSuccessful (syncConstraints p items core).2.code = true) :
    (syncConstraints p items core).1 = core := by
  unfold syncConstraints upsertConstraints at h ⊢
  cases hitems : upsertConstraintItems (snapshotProject p) core.configs items []
      core.configs.constraints with
  | error message => rfl
  | ok constraints =>
      rw [hitems] at h
      exact absurd rfl h

/-- A sync forgets the cache of its project. -/
theorem cachedStates_forgotten (p : ProjectId) (core : CoreService)
    (configs : RuntimeConfigRegistry) :
    cachedStates p
        { core with configs := configs, constraintStates := erase p core.constraintStates } =
      KeyedTable.empty := by
  rw [cachedStates, find_erase_self]
  rfl

theorem filed_empty : Filed (KeyedTable.empty : Table String CachedConstraintState) :=
  fun _ => ⟨fun _ => rfl, fun _ hv => by cases hv⟩

/-- A sync keeps the invariant. -/
theorem RunInv.sync {p : ProjectId} (hp : p ≠ "") {core : CoreService} (h : RunInv p core)
    (items : List RuntimeConstraintConfig) : RunInv p (syncConstraints p items core).1 := by
  by_cases hok : isSuccessful (syncConstraints p items core).2.code = true
  · obtain ⟨constraints, hitems, heq⟩ := sync_success hok
    rw [heq]
    refine ⟨h.valid, ?_, ?_⟩
    · refine upsertConstraintItems_entries (fun item _ _ hsees => ?_) h.rules hitems
      rw [snapshotProject, effectiveProject_of_ne hp]
    · rw [cachedStates_forgotten]
      exact filed_empty
  · rw [sync_failure hok]
    exact h

/-- A batch keeps the invariant. -/
theorem RunInv.ingest {p : ProjectId} {core : CoreService} (h : RunInv p core) (capacity : Nat)
    (data : TimeseriesBatch) : RunInv p (processHotIngest capacity p data core).1 := by
  refine ⟨process_valid capacity p data h.valid, ?_, ?_⟩
  · rw [process_configs]
    exact h.rules
  · rw [(process_states capacity p data core).1]
    cases hpub : published capacity p data core with
    | none => exact h.filed
    | some after => exact filed_published h.filed hpub

/-- Every step keeps the invariant. -/
theorem RunInv.step {p : ProjectId} (hp : p ≠ "") (capacity : Nat) {core : CoreService}
    {action : CoreAction} (ha : OfProject p action) (h : RunInv p core) :
    RunInv p (coreStep capacity core action) := by
  cases action with
  | ingest projectId data =>
      cases (show projectId = p from ha)
      exact h.ingest capacity data
  | sync projectId items =>
      cases (show projectId = p from ha)
      exact h.sync hp items

/-! ## A clause nobody touches -/

/-- The rules of the clause of `rule` are those of `clause`. -/
structure Phase (p : ProjectId) (rule : ConstraintRule) (clause : ConstraintRule → Prop)
    (core : CoreService) : Prop where
  inv : RunInv p core
  same : ∀ other, ClauseRule p rule core other ↔ clause other

/-- Every rule of the clause that reads anything has a violation on record. -/
def Ongoing (p : ProjectId) (clause : ConstraintRule → Prop) (core : CoreService) : Prop :=
  ∀ other, clause other → mappedSequenceIds other ≠ [] → OnRecord (cachedStates p core) other

/-- No rule of the clause has a violation on record. -/
def Silent (p : ProjectId) (clause : ConstraintRule → Prop) (core : CoreService) : Prop :=
  ∀ other, clause other → ¬ OnRecord (cachedStates p core) other

section Clause

variable {p : ProjectId} {rule : ConstraintRule} {clause : ConstraintRule → Prop}
  {core : CoreService}

theorem Phase.enabled (h : Phase p rule clause core) {other : ConstraintRule}
    (hother : clause other) : other ∈ allEnabledConstraints p core.configs :=
  ((h.same other).mpr hother).1

/-- The rules of one key are the rules of the clause. -/
theorem Phase.of_key (h : Phase p rule clause core)
    (hrule : rule ∈ allEnabledConstraints p core.configs) {other first : ConstraintRule}
    (hother : clause other) (hfirst : first ∈ allEnabledConstraints p core.configs)
    (hkey : clauseKey first = clauseKey other) : clause first := by
  obtain ⟨hmem, hsame⟩ := (h.same other).mpr hother
  have hkeys := (sameClause_iff h.inv.ids hrule hmem).mp hsame
  exact (h.same first).mp
    ⟨hfirst, (sameClause_iff h.inv.ids hrule hfirst).mpr (hkeys.trans hkey.symm)⟩

/-- A rule whose sequences are left alone is not affected. -/
theorem Phase.unaffected (h : Phase p rule clause core) {data : TimeseriesBatch}
    (hacc : Accepted p data none) {other : ConstraintRule} (hother : clause other)
    (hquiet : ∀ s ∈ mappedSequenceIds other, Untouched p s data core) :
    wasAffected (batchReport p data core)
      (sequenceIdsFor (allEnabledConstraints p core.configs) other) = false := by
  rw [sequenceIdsFor_of_mem h.inv.ids (h.enabled hother)]
  refine Bool.eq_false_iff.mpr fun haffected => ?_
  obtain ⟨s, hs, hchanged⟩ := List.any_eq_true.mp haffected
  obtain ⟨hnew, hkept⟩ := hquiet s hs hacc
  have hincoming : incomingFor s data.points = [] :=
    List.eq_nil_iff_forall_not_mem.mpr fun q hq =>
      hnew q (mem_incomingFor.mp hq).1 (mem_incomingFor.mp hq).2
  have hgrown : grown p s data core.window = retained p s core.window := by
    rw [grown, hincoming, assignAll_nil]
    rfl
  rw [hotUpdate_retained hacc h.inv.valid, retainedAfter, hgrown] at hkept
  rcases ((batch_reported hacc h.inv.valid).changed s).mp (of_decide_eq_true hchanged) with
    ⟨q, hq, hqs⟩ | ⟨q, hq, hlt⟩
  · exact hnew q hq hqs
  · rw [hgrown] at hq
    have hstay := of_decide_eq_true (List.filter_eq_self.mp hkept q hq)
    exact absurd hlt (not_lt.mpr hstay)

/-- A rule whose sequences are untouched is not evaluated while it is on record. -/
theorem not_evaluated_of_record (h : Phase p rule clause core) {data : TimeseriesBatch}
    (hacc : Accepted p data none) {other : ConstraintRule} (hother : clause other)
    (hquiet : ∀ s ∈ mappedSequenceIds other, Untouched p s data core)
    (hrecord : OnRecord (cachedStates p core) other) :
    other ∉ evaluatedRules (allEnabledConstraints p core.configs) (batchReport p data core)
      (cachedStates p core) := by
  intro heval
  have hwhy := (List.mem_filter.mp heval).2
  rw [isEvaluated, h.unaffected hacc hother hquiet, Bool.false_or, Bool.not_eq_true'] at hwhy
  exact hrecord ((h.inv.filed other.constraintId).untouched hwhy)

theorem not_selected_of_silent (h : Phase p rule clause core)
    (hrule : rule ∈ allEnabledConstraints p core.configs) {data : TimeseriesBatch}
    (hacc : Accepted p data none)
    (hquiet : ∀ other, clause other → ∀ s ∈ mappedSequenceIds other, Untouched p s data core)
    (hsilent : Silent p clause core) {other : ConstraintRule} (hother : clause other) :
    other ∉ selectRules (allEnabledConstraints p core.configs) (batchReport p data core)
      (cachedStates p core) := by
  intro hselected
  obtain ⟨-, -, first, hfirst, hkey, hwhy⟩ := mem_selectRules.mp hselected
  have hclause := h.of_key hrule hother hfirst hkey
  rcases hwhy with haffected | hrecord
  · rw [h.unaffected hacc hclause (hquiet first hclause)] at haffected
    cases haffected
  · exact hsilent first hclause hrecord

/-- A batch that leaves the clause alone leaves its entries. -/
theorem kept_by_batch (h : Phase p rule clause core)
    (hrule : rule ∈ allEnabledConstraints p core.configs) (capacity : Nat)
    {data : TimeseriesBatch}
    (hquiet : ∀ other, clause other → ∀ s ∈ mappedSequenceIds other, Untouched p s data core)
    {other : ConstraintRule} (hother : clause other)
    (hwhy : OnRecord (cachedStates p core) other ∨ Silent p clause core) :
    stateOf other.constraintId (cachedStates p (processHotIngest capacity p data core).1) =
      stateOf other.constraintId (cachedStates p core) := by
  rw [(process_states capacity p data core).1]
  cases hpub : published capacity p data core with
  | none => rfl
  | some after =>
      have hacc := published_accepted hpub
      refine published_unevaluated h.inv.ids (h.enabled hother) ?_ hpub
      rcases hwhy with hrecord | hsilent
      · exact not_evaluated_of_record h hacc hother (hquiet other hother) hrecord
      · exact fun heval => not_selected_of_silent h hrule hacc hquiet hsilent hother
          (List.mem_filter.mp heval).1

/-- A synchronisation of other rules leaves the clause as it was. -/
theorem Phase.sync (hp : p ≠ "") (h : Phase p rule clause core)
    {items : List RuntimeConstraintConfig}
    (hok : isSuccessful (syncConstraints p items core).2.code = true)
    (hitems : ∀ item ∈ items, ¬ SameClause rule item.rule ∧
      ∀ other, clause other → item.rule.constraintId ≠ other.constraintId) :
    Phase p rule clause (syncConstraints p items core).1 := by
  refine ⟨h.inv.sync hp items, fun other => ?_⟩
  have hrules := (h.inv.sync hp items).rules
  obtain ⟨constraints, hupsert, heq⟩ := sync_success hok
  rw [heq] at hrules ⊢
  rw [← h.same other, ClauseRule, ClauseRule, mem_enabled hrules, mem_enabled h.inv.rules]
  show (∃ config, constraints.find _ = some config ∧ _) ∧ _ ↔ _
  rcases upsertConstraintItems_find hupsert (scopedKey p other.constraintId) with
    ⟨item, hitem, hkey, hfind⟩ | hfind
  · rw [snapshotProject, effectiveProject_of_ne hp] at hkey
    have hid : other.constraintId = item.rule.constraintId := scopedKey_inj hkey
    constructor
    · rintro ⟨⟨config, hconfig, -, hrule⟩, hsame⟩
      rw [hfind] at hconfig
      rw [← hrule, ← Option.some.inj hconfig] at hsame
      exact absurd hsame (hitems item hitem).1
    · rintro ⟨hold, hsame⟩
      have hclause := (h.same other).mp ⟨(mem_enabled h.inv.rules).mpr hold, hsame⟩
      exact absurd hid.symm ((hitems item hitem).2 other hclause)
  · rw [hfind]

/-- After a sync nothing is on record. -/
theorem silent_of_sync {items : List RuntimeConstraintConfig}
    (hok : isSuccessful (syncConstraints p items core).2.code = true) :
    Silent p clause (syncConstraints p items core).1 := by
  obtain ⟨constraints, -, heq⟩ := sync_success hok
  intro other _ hrecord
  rw [heq, cachedStates_forgotten] at hrecord
  exact hrecord rfl

/-- **One step** that leaves the clause alone. -/
theorem phase_step (hp : p ≠ "") (capacity : Nat) (h : Phase p rule clause core)
    (hrule : clause rule) {action : CoreAction} (ha : LeavesAlone p rule clause core action) :
    Phase p rule clause (coreStep capacity core action) ∧
      (Silent p clause core → Silent p clause (coreStep capacity core action)) ∧
      (∀ items, action = .sync p items → Silent p clause (coreStep capacity core action)) ∧
      ((∀ items, action ≠ .sync p items) → Ongoing p clause core →
        Ongoing p clause (coreStep capacity core action)) := by
  have hmem := h.enabled hrule
  cases action with
  | ingest projectId data =>
      obtain ⟨rfl, hquiet⟩ := ha
      refine ⟨⟨h.inv.ingest capacity data, fun other => ?_⟩, fun hsilent other hother => ?_,
        fun items hno => (by cases hno), fun _ hongoing other hother hnamed => ?_⟩
      · rw [← h.same other, ClauseRule, coreStep, process_configs, ClauseRule]
      · rw [OnRecord, coreStep, kept_by_batch h hmem capacity hquiet hother (Or.inr hsilent)]
        exact hsilent other hother
      · have hrecord := hongoing other hother hnamed
        rw [OnRecord, coreStep, kept_by_batch h hmem capacity hquiet hother (Or.inl hrecord)]
        exact hrecord
  | sync projectId items =>
      obtain ⟨rfl, hok, hitems⟩ := ha
      exact ⟨h.sync hp hok hitems, fun _ => silent_of_sync hok, fun _ _ => silent_of_sync hok,
        fun hno => absurd rfl (hno items)⟩

/-- **A whole run** that leaves the clause alone. -/
theorem phase_run (hp : p ≠ "") (capacity : Nat) (hrule : clause rule)
    {actions : List CoreAction} (h : Phase p rule clause core)
    (ha : Admissible (coreStep capacity) (LeavesAlone p rule clause) core actions) :
    Phase p rule clause (run (coreStep capacity) core actions) ∧
      (Silent p clause core → Silent p clause (run (coreStep capacity) core actions)) ∧
      ((∃ items, .sync p items ∈ actions) →
        Silent p clause (run (coreStep capacity) core actions)) ∧
      ((∀ items, .sync p items ∉ actions) → Ongoing p clause core →
        Ongoing p clause (run (coreStep capacity) core actions)) := by
  induction actions generalizing core with
  | nil =>
      refine ⟨h, fun hs => hs, ?_, fun _ ho => ho⟩
      rintro ⟨items, hmem⟩
      cases hmem
  | cons action actions ih =>
      obtain ⟨hphase, hsilent, hsync, hongoing⟩ := phase_step hp capacity h hrule ha.1
      obtain ⟨hphase', hsilent', hsync', hongoing'⟩ := ih hphase ha.2
      refine ⟨hphase', fun hs => hsilent' (hsilent hs), ?_, fun hno ho => ?_⟩
      · rintro ⟨items, hmem⟩
        rcases List.mem_cons.mp hmem with heq | hmem
        · exact hsilent' (hsync items heq.symm)
        · exact hsync' ⟨items, hmem⟩
      · refine hongoing' (fun items hmem => hno items (List.mem_cons_of_mem _ hmem)) ?_
        refine hongoing (fun items heq => hno items ?_) ho
        rw [heq]
        exact List.mem_cons_self ..

end Clause

/-! ## Reporting again -/

/-- Only a batch whose evaluations succeed submits anything. -/
theorem published_of_submitted {capacity : Nat} {p : ProjectId} {data : TimeseriesBatch}
    {core : CoreService} {n : ConstraintNotification}
    (h : submitted capacity p data core = some n) :
    ∃ after, published capacity p data core = some after := by
  obtain ⟨checked, hchecked, hnotification⟩ := Option.bind_eq_some_iff.mp h
  cases hstage : (stageOf capacity p (batchReport p data core) checked).published with
  | some after =>
      refine ⟨after, ?_⟩
      rw [published, hchecked, Option.bind_some, hstage]
  | none =>
      exfalso
      unfold constraintPart at hnotification
      simp only at hnotification
      split at hnotification
      rotate_left
      · cases hnotification
      rename_i result hresult
      split at hresult
      · rw [← Except.ok.inj hresult] at hnotification
        cases hnotification
      split at hresult
      · rw [← Except.ok.inj hresult] at hnotification
        cases hnotification
      -- a stage that does not publish has nothing to notify
      unfold stageOf constraintStage at hstage
      unfold constraintStage at hresult
      simp only at hstage hresult
      split at hresult
      · cases hresult
      rename_i grouped hrun
      rw [hrun] at hstage
      simp only at hstage
      split at hresult
      · rw [← Except.ok.inj hresult] at hnotification
        cases hnotification
      · rename_i hfailed
        rw [hfailed] at hstage
        cases hstage

section Reports

variable {capacity : Nat} {p : ProjectId} {rule : ConstraintRule} {data : TimeseriesBatch}
  {core : CoreService} {after : Table String CachedConstraintState}

/-- A batch reports a rule when it selects it and finds it violated. -/
theorem reports_iff (h : RunInv p core) (hpub : published capacity p data core = some after)
    (hrule : rule ∈ allEnabledConstraints p core.configs) :
    Reports capacity p rule data core ↔
      rule ∈ selectRules (allEnabledConstraints p core.configs) (batchReport p data core)
          (cachedStates p core) ∧
        ∀ other ∈ selectRules (allEnabledConstraints p core.configs) (batchReport p data core)
          (cachedStates p core), clauseKey other = clauseKey rule → OnRecord after other := by
  have hfiled := filed_published h.filed hpub
  rw [Reports, submitted_of_published hpub]
  simp only
  generalize hselected : selectRules (allEnabledConstraints p core.configs)
    (batchReport p data core) (cachedStates p core) = selected
  have hsubset : ∀ other ∈ selected, other ∈ allEnabledConstraints p core.configs := by
    intro other hother
    rw [← hselected] at hother
    exact (mem_selectRules.mp hother).1
  constructor
  · rintro ⟨n, hn, hid⟩
    split at hn
    · cases hn
    rw [← Option.some.inj hn] at hid
    obtain ⟨violation, hv, hvid⟩ := List.mem_map.mp (mem_sortUnique_ids.mp hid)
    obtain ⟨other, hother, hmem, hall⟩ := (mem_reportClauses hfiled).mp hv
    -- the violation is the rule's own
    have hsame : other = rule := rule_of_id h.ids (hsubset other hother) hrule
      (((hfiled _).own violation hmem).symm.trans hvid)
    rw [hsame] at hother hall
    exact ⟨hother, hall⟩
  · rintro ⟨hmem, hall⟩
    obtain ⟨violation, hv⟩ := List.exists_mem_of_ne_nil _ (hall rule hmem rfl)
    have hreport := (mem_reportClauses hfiled).mpr ⟨rule, hmem, hv, hall⟩
    rw [if_neg]
    · refine ⟨_, rfl, mem_sortUnique_ids.mpr ?_⟩
      exact List.mem_map.mpr ⟨violation, hreport, (hfiled _).own violation hv⟩
    · intro hempty
      rw [List.isEmpty_iff.mp hempty] at hreport
      cases hreport

end Reports

/-- **A report starts the ongoing phase** of its clause. -/
theorem ongoing_of_reports {capacity : Nat} {p : ProjectId} {rule : ConstraintRule}
    {data : TimeseriesBatch} {core : CoreService} (h : RunInv p core)
    (hrule : rule ∈ allEnabledConstraints p core.configs)
    (hreports : Reports capacity p rule data core) :
    mappedSequenceIds rule ≠ [] ∧
      Phase p rule (ClauseRule p rule core) (processHotIngest capacity p data core).1 ∧
      Ongoing p (ClauseRule p rule core) (processHotIngest capacity p data core).1 := by
  obtain ⟨n, hn, hid⟩ := hreports
  obtain ⟨after, hpub⟩ := published_of_submitted hn
  obtain ⟨hselected, hall⟩ := (reports_iff h hpub hrule).mp ⟨n, hn, hid⟩
  obtain ⟨-, hnamed, first, hfirst, hkey, hwhy⟩ := mem_selectRules.mp hselected
  rw [sequenceIdsFor_of_mem h.ids hrule] at hnamed
  refine ⟨hnamed, ⟨h.ingest capacity data, fun other => ?_⟩, fun other hother hreads => ?_⟩
  · rw [ClauseRule, process_configs, ClauseRule]
  · have hmem := hother.1
    have hkeys := (sameClause_iff h.ids hrule hmem).mp hother.2
    rw [OnRecord, (process_states capacity p data core).1, hpub, Option.getD_some]
    refine hall other (mem_selectRules.mpr ⟨hmem, ?_, first, hfirst, hkey.trans hkeys, hwhy⟩)
      hkeys.symm
    rw [sequenceIdsFor_of_mem h.ids hmem]
    exact hreads

/-- **After a report, a later batch reports the clause again exactly when no rule was
    synchronised in between**, as long as the clause itself is left alone. -/
theorem reported_again_iff (capacity : Nat) {p : ProjectId} (hp : p ≠ "")
    {registry : RuntimeConfigRegistry} (hregistry : registry.constraints = KeyedTable.empty)
    {before : List CoreAction} (hbefore : ∀ action ∈ before, OfProject p action)
    {rule : ConstraintRule} {first : TimeseriesBatch} {reported : CoreService}
    (hreported : reported = run (coreStep capacity) { configs := registry } before)
    (hrule : rule ∈ allEnabledConstraints p reported.configs)
    (hreports : Reports capacity p rule first reported) {since : List CoreAction}
    (hsince : Admissible (coreStep capacity)
      (LeavesAlone p rule (ClauseRule p rule reported))
      (coreStep capacity reported (.ingest p first)) since) {later : TimeseriesBatch}
    {core : CoreService}
    (hcore : core = run (coreStep capacity) (coreStep capacity reported (.ingest p first)) since)
    (hlater : LeavesAlone p rule (ClauseRule p rule reported) core (.ingest p later))
    (hsucceed : (published capacity p later core).isSome = true) :
    Reports capacity p rule later core ↔ ∀ items, .sync p items ∉ since := by
  have hstart : RunInv p { configs := registry } := by
    refine ⟨allValid_empty, ?_, filed_empty⟩
    rw [hregistry]
    exact entries_empty
  have hinv : RunInv p reported := by
    rw [hreported]
    exact run_invariant (fun _ _ ha h => h.step hp capacity ha) hstart hbefore
  obtain ⟨hnamed, hphase, hongoing⟩ := ongoing_of_reports hinv hrule hreports
  have hself : ClauseRule p rule reported rule := ⟨hrule, Or.inl rfl⟩
  obtain ⟨hphase', -, hsync, hkeep⟩ := phase_run hp capacity hself hphase hsince
  change Phase p rule _ (run (coreStep capacity) (coreStep capacity reported (.ingest p first))
    since) at hphase'
  change (∃ items, .sync p items ∈ since) → Silent p _ (run (coreStep capacity)
    (coreStep capacity reported (.ingest p first)) since) at hsync
  change (∀ items, .sync p items ∉ since) → _ → Ongoing p _ (run (coreStep capacity)
    (coreStep capacity reported (.ingest p first)) since) at hkeep
  rw [← hcore] at hphase' hsync hkeep
  obtain ⟨after, hafter⟩ := Option.isSome_iff_exists.mp hsucceed
  have hacc := published_accepted hafter
  have hmem := hphase'.enabled hself
  rw [reports_iff hphase'.inv hafter hmem]
  constructor
  · rintro ⟨hselected, -⟩ items hitems
    exact not_selected_of_silent hphase' hmem hacc hlater.2 (hsync ⟨items, hitems⟩) hself hselected
  · intro hno
    have hrecords := hkeep hno hongoing
    have hids := hphase'.inv.ids
    refine ⟨mem_selectRules.mpr ⟨hmem, ?_, rule, hmem, rfl, Or.inr (hrecords rule hself hnamed)⟩,
      fun other hother hkey => ?_⟩
    · rw [sequenceIdsFor_of_mem hids hmem]
      exact hnamed
    · obtain ⟨hom, hreads, -⟩ := mem_selectRules.mp hother
      rw [sequenceIdsFor_of_mem hids hom] at hreads
      have hclause := hphase'.of_key hmem hself hom hkey
      have hrecord := hrecords other hclause hreads
      have hkept := kept_by_batch hphase' hmem capacity hlater.2 hclause (Or.inl hrecord)
      rw [(process_states capacity p later core).1, hafter, Option.getD_some] at hkept
      rw [OnRecord, hkept]
      exact hrecord

/-! ## One rule on `s`, and batches of `t` -/

/-- The rule on `s` is configured and violated. -/
def violated : CoreService :=
  run (coreStep 4) { configs := twoInstances } [.sync "p" [boundOn "r" "s" ""]]

theorem violated_rules :
    allEnabledConstraints "p" violated.configs = [(boundOn "r" "s" "").rule] := rfl

/-- The clause reads one sequence. -/
theorem violated_mapped {other : ConstraintRule}
    (h : ClauseRule "p" (boundOn "r" "s" "").rule violated other) :
    mappedSequenceIds other = ["s"] := by
  have hmem := h.1
  rw [violated_rules, List.mem_singleton] at hmem
  rw [hmem]
  decide +kernel

theorem violated_reports : Reports 4 "p" (boundOn "r" "s" "").rule highPoint violated := by
  have hn : submitted 4 "p" highPoint violated =
      some { projectId := "p", time := 0, constraintIds := ["r"], sequenceIds := ["s"] } := by
    decide +kernel
  exact ⟨_, hn, List.mem_singleton_self _⟩

/-- A batch of another sequence, after one more. -/
theorem reported_again_iff_other_batch :
    Reports 4 "p" (boundOn "r" "s" "").rule (otherPoint 2)
        (run (coreStep 4) (coreStep 4 violated (.ingest "p" highPoint))
          [.ingest "p" (otherPoint 1)]) ↔
      ∀ items, CoreAction.sync "p" items ∉ [CoreAction.ingest "p" (otherPoint 1)] := by
  have hbefore : ∀ action ∈ [CoreAction.sync "p" [boundOn "r" "s" ""]],
      OfProject "p" action := by
    intro action haction
    rw [List.mem_singleton.mp haction]
    rfl
  have hempty : twoInstances.constraints = KeyedTable.empty := rfl
  refine reported_again_iff 4 (by decide) hempty hbefore rfl (List.mem_singleton_self _)
    violated_reports ?_ rfl ?_ (by decide +kernel)
  · refine ⟨⟨rfl, fun other hother s hs => ?_⟩, trivial⟩
    rw [violated_mapped hother, List.mem_singleton] at hs
    rw [hs]
    exact fun _ => ⟨by decide +kernel, by decide +kernel⟩
  · refine ⟨rfl, fun other hother s hs => ?_⟩
    rw [violated_mapped hother, List.mem_singleton] at hs
    rw [hs]
    exact fun _ => ⟨by decide +kernel, by decide +kernel⟩

/-- The violation is reported; then a rule on `t` is synchronised, and the next batch,
    a point of `t`, reports nothing although the point of `s` still stands. -/
theorem sync_silences_violation :
    let reported := coreStep 4 violated (.ingest "p" highPoint)
    let core := coreStep 4 reported (.sync "p" [boundOn "c" "t" ""])
    Reports 4 "p" (boundOn "r" "s" "").rule highPoint violated ∧
      LeavesAlone "p" (boundOn "r" "s" "").rule
        (ClauseRule "p" (boundOn "r" "s" "").rule violated) reported
        (.sync "p" [boundOn "c" "t" ""]) ∧
      LeavesAlone "p" (boundOn "r" "s" "").rule
        (ClauseRule "p" (boundOn "r" "s" "").rule violated) core (.ingest "p" (otherPoint 1)) ∧
      (published 4 "p" (otherPoint 1) core).isSome = true ∧
      ¬ Reports 4 "p" (boundOn "r" "s" "").rule (otherPoint 1) core := by
  intro reported core
  refine ⟨violated_reports, ⟨rfl, by decide +kernel, fun item hitem => ?_⟩,
    ⟨rfl, fun other hother s hs => ?_⟩, by decide +kernel, ?_⟩
  · rw [List.mem_singleton.mp hitem]
    refine ⟨?_, fun other hother => ?_⟩
    · rintro (heq | ⟨hgroup, -⟩)
      · exact absurd (congrArg ConstraintRule.constraintId heq) (by decide)
      · exact hgroup rfl
    · have hmem := hother.1
      rw [violated_rules, List.mem_singleton] at hmem
      rw [hmem]
      decide
  · rw [violated_mapped hother, List.mem_singleton] at hs
    rw [hs]
    exact fun _ => ⟨by decide +kernel, by decide +kernel⟩
  · rintro ⟨n, hn, -⟩
    have hnothing : submitted 4 "p" (otherPoint 1) core = none := by decide +kernel
    rw [hnothing] at hn
    cases hn

end SilencedClause
