import TimeSeriesEngine.IngestStep
import TimeSeriesEngine.RegistryReferences

/-!
# The persistent report

A batch evaluates some of the enabled rules and reports from the whole cache.  What
it submits is judged here against the cache it leaves: the ids of the rules whose
clause has a violation on record for every one of its rules.

* `reportExact_of_distinct` — the report is exact when the enabled rules have
  distinct ids and each reads a named sequence;
* `OwnEntries` — what keeps it so over any interleaving of the locked sections of
  all requests, as long as no foreign key looks like a key of the project;
* `report_misses_foreign_clause` — a run in which one does.
-/

namespace PersistentReport

open TseTypes KeyedTable OrderedSeries HotWindow WindowUpdate ConstraintCheck Registry
open UpdateRange DerivedSeries HotIngest RuleGroups IngestStep RegistryReferences Transition

/-! ## Clauses -/

/-- Rules of one clause: one rule, or a common nonempty OR group. -/
def SameClause (a b : ConstraintRule) : Prop :=
  a = b ∨ a.orGroupId ≠ "" ∧ a.orGroupId = b.orGroupId

/-- The rule has cached violations. -/
def OnRecord (states : Table String CachedConstraintState) (rule : ConstraintRule) : Prop :=
  (stateOf rule.constraintId states).violations ≠ []

/-- Every rule of the clause has a cached violation. -/
def ClauseViolated (rules : List ConstraintRule) (states : Table String CachedConstraintState)
    (rule : ConstraintRule) : Prop :=
  ∀ other ∈ rules, SameClause rule other → OnRecord states other

/-- What a batch hands to `tryEnqueue`, also when an exception of the concurrent
    refresh leaves the function afterwards. -/
def submitted (capacity : Nat) (p : ProjectId) (data : TimeseriesBatch) (core : CoreService) :
    Option ConstraintNotification :=
  (checkedCore capacity p data core).bind fun checked =>
    match (constraintPart capacity p (batchReport p data core) {} checked).2 with
    | .ok result => result.notification
    | .error _ => none

/-- **The report is exact**: it names the rules of the violated clauses, each once, and
    nothing is submitted when there are none. -/
structure ReportExact (p : ProjectId) (rules : List ConstraintRule)
    (states : Table String CachedConstraintState) (notification : Option ConstraintNotification) :
    Prop where
  project : ∀ n, notification = some n → n.projectId = p
  once : ∀ n, notification = some n → n.constraintIds.Nodup
  exact : ∀ n, notification = some n → ∀ id, id ∈ n.constraintIds ↔
    ∃ rule ∈ rules, rule.constraintId = id ∧ ClauseViolated rules states rule
  nothing : notification = none ↔ ∀ rule ∈ rules, ¬ ClauseViolated rules states rule

theorem rule_of_id {rules : List ConstraintRule}
    (hids : (rules.map ConstraintRule.constraintId).Nodup) {a b : ConstraintRule} (ha : a ∈ rules)
    (hb : b ∈ rules) (h : a.constraintId = b.constraintId) : a = b := by
  have hfirst := find_of_nodup hids ha
  rw [h, find_of_nodup hids hb] at hfirst
  exact (Option.some.inj hfirst).symm

theorem clauseKey_grouped {rule : ConstraintRule} (h : rule.orGroupId ≠ "") :
    clauseKey rule = "\x1e" ++ rule.orGroupId :=
  if_neg (by simpa [String.isEmpty_iff] using h)

theorem ordinary_ne_grouped (x y : String) : "\x1f" ++ x ≠ "\x1e" ++ y := by
  intro h
  have hchars := congrArg String.toList h
  simp [String.toList_append] at hchars

/-- The keys tell the clauses apart where equal ids mean equal rules. -/
theorem sameClause_iff_key {a b : ConstraintRule} (hsame : a.constraintId = b.constraintId → a = b) :
    SameClause a b ↔ clauseKey a = clauseKey b := by
  by_cases hga : a.orGroupId = ""
  · have hka : clauseKey a = "\x1f" ++ a.constraintId := clauseKey_ordinary (by rw [hga]; rfl)
    by_cases hgb : b.orGroupId = ""
    · have hkb : clauseKey b = "\x1f" ++ b.constraintId := clauseKey_ordinary (by rw [hgb]; rfl)
      rw [hka, hkb]
      constructor
      · rintro (rfl | ⟨hne, -⟩)
        · rfl
        · exact absurd hga hne
      · exact fun h => Or.inl (hsame (append_right_inj_string h))
    · rw [hka, clauseKey_grouped hgb]
      constructor
      · rintro (rfl | ⟨hne, -⟩)
        · exact absurd hga hgb
        · exact absurd hga hne
      · exact fun h => absurd h (ordinary_ne_grouped _ _)
  · rw [clauseKey_grouped hga]
    by_cases hgb : b.orGroupId = ""
    · have hkb : clauseKey b = "\x1f" ++ b.constraintId := clauseKey_ordinary (by rw [hgb]; rfl)
      rw [hkb]
      constructor
      · rintro (rfl | ⟨-, heq⟩)
        · exact absurd hgb hga
        · exact absurd (heq.trans hgb) hga
      · exact fun h => absurd h.symm (ordinary_ne_grouped _ _)
    · rw [clauseKey_grouped hgb]
      constructor
      · rintro (rfl | ⟨-, heq⟩)
        · rfl
        · rw [heq]
      · exact fun h => Or.inr ⟨hga, append_right_inj_string h⟩

theorem sameClause_iff {rules : List ConstraintRule}
    (hids : (rules.map ConstraintRule.constraintId).Nodup) {a b : ConstraintRule} (ha : a ∈ rules)
    (hb : b ∈ rules) : SameClause a b ↔ clauseKey a = clauseKey b :=
  sameClause_iff_key (rule_of_id hids ha hb)

/-! ## What is selected and what is reported -/

/-- The entry of a rule that was never evaluated is empty, and its violations are its own. -/
structure FiledUnder (id : String) (state : CachedConstraintState) : Prop where
  untouched : state.initialized = false → state.violations = []
  own : ∀ violation ∈ state.violations, violation.constraintId = id

/-- Every entry holds violations of its own rule. -/
def Filed (states : Table String CachedConstraintState) : Prop :=
  ∀ id, FiledUnder id (stateOf id states)

theorem nothing_filed : Filed KeyedTable.empty :=
  fun _ => ⟨fun _ => rfl, fun _ hviolation => by cases hviolation⟩

/-- A rule is passed over when nothing is on record for it. -/
theorem reportsNothing_iff {states : Table String CachedConstraintState} (h : Filed states)
    (rule : ConstraintRule) : reportsNothing states rule = false ↔ OnRecord states rule := by
  have hu := (h rule.constraintId).untouched
  unfold reportsNothing OnRecord
  rw [stateOf] at hu ⊢
  cases hfind : states.find rule.constraintId with
  | none => simp
  | some state =>
      rw [hfind] at hu
      cases hinit : state.initialized with
      | false =>
          have hnil : state.violations = [] := hu hinit
          simp [hinit, hnil]
      | true => simp [hinit]

/-- The keys of the selected rules. -/
theorem mem_clauseKeys_fold {selected : List ConstraintRule} {key : String} :
    key ∈ selected.foldl (fun keys rule => pushUnique (clauseKey rule) keys) [] ↔
      ∃ rule ∈ selected, clauseKey rule = key := by
  have hmap : selected.foldl (fun keys rule => pushUnique (clauseKey rule) keys) [] =
      (selected.map clauseKey).foldl (fun keys key => pushUnique key keys) [] := by
    rw [List.foldl_map]
  rw [hmap, mem_foldl_pushUnique, List.mem_map]
  exact or_iff_right List.not_mem_nil

/-- The violations reported. -/
theorem mem_reportClauses {selected : List ConstraintRule}
    {states : Table String CachedConstraintState} (h : Filed states)
    {violation : ConstraintViolation} :
    violation ∈ reportClauses selected states ↔
      ∃ rule ∈ selected, violation ∈ (stateOf rule.constraintId states).violations ∧
        ∀ other ∈ selected, clauseKey other = clauseKey rule → OnRecord states other := by
  unfold reportClauses
  rw [List.mem_flatMap]
  constructor
  · rintro ⟨key, -, hmem⟩
    simp only at hmem
    split at hmem
    · cases hmem
    rename_i hnone
    obtain ⟨rule, hrule, hv⟩ := List.mem_flatMap.mp hmem
    obtain ⟨hsel, hkey⟩ := List.mem_filter.mp hrule
    refine ⟨rule, hsel, hv, fun other hother hsame => ?_⟩
    refine (reportsNothing_iff h other).mp (Bool.eq_false_iff.mpr fun hreports => hnone ?_)
    refine List.any_eq_true.mpr ⟨other, List.mem_filter.mpr ⟨hother, ?_⟩, hreports⟩
    exact decide_eq_true (hsame.trans (of_decide_eq_true hkey))
  · rintro ⟨rule, hsel, hv, hall⟩
    refine ⟨clauseKey rule, mem_clauseKeys_fold.mpr ⟨rule, hsel, rfl⟩, ?_⟩
    have hnone : ¬ ((selected.filter fun r => clauseKey r = clauseKey rule).any
        (reportsNothing states)) = true := by
      intro hany
      obtain ⟨other, hother, hreports⟩ := List.any_eq_true.mp hany
      obtain ⟨hosel, hokey⟩ := List.mem_filter.mp hother
      have hfalse := (reportsNothing_iff h other).mpr (hall other hosel (of_decide_eq_true hokey))
      rw [hreports] at hfalse
      cases hfalse
    simp only
    rw [if_neg hnone]
    exact List.mem_flatMap.mpr
      ⟨rule, List.mem_filter.mpr ⟨hsel, decide_eq_true rfl⟩, hv⟩

/-- A rule with a violation after the batch belongs to a selected clause, and with it
    all rules of its clause. -/
structure Selection (rules selected : List ConstraintRule)
    (states : Table String CachedConstraintState) : Prop where
  subset : ∀ rule ∈ selected, rule ∈ rules
  closed : ∀ rule ∈ selected, ∀ other ∈ rules, clauseKey other = clauseKey rule → other ∈ selected
  covers : ∀ rule ∈ rules, OnRecord states rule → rule ∈ selected

/-- A clause is selected as a whole. -/
theorem selection_clause {rules selected : List ConstraintRule}
    {states : Table String CachedConstraintState} (h : Selection rules selected states)
    (hids : (rules.map ConstraintRule.constraintId).Nodup) {rule : ConstraintRule}
    (hrule : rule ∈ rules) :
    ClauseViolated rules states rule ↔
      rule ∈ selected ∧ ∀ other ∈ selected, clauseKey other = clauseKey rule →
        OnRecord states other := by
  constructor
  · intro hclause
    refine ⟨h.covers rule hrule (hclause rule hrule (Or.inl rfl)), fun other hother hkey => ?_⟩
    have hmem := h.subset other hother
    exact hclause other hmem ((sameClause_iff hids hrule hmem).mpr hkey.symm)
  · rintro ⟨hsel, hall⟩ other hother hsame
    have hkey := ((sameClause_iff hids hrule hother).mp hsame).symm
    exact hall other (h.closed rule hsel other hother hkey) hkey

/-- The selected rules. -/
theorem mem_selectRules {rules : List ConstraintRule} {update : WindowUpdateResult}
    {states : Table String CachedConstraintState} {rule : ConstraintRule} :
    rule ∈ selectRules rules update states ↔
      rule ∈ rules ∧ sequenceIdsFor rules rule ≠ [] ∧
        ∃ first ∈ rules, clauseKey first = clauseKey rule ∧
          (wasAffected update (sequenceIdsFor rules first) = true ∨ OnRecord states first) := by
  rw [selectRules, List.mem_filter, Bool.and_eq_true, decide_eq_true_iff, affectedClauses,
    List.mem_map]
  refine and_congr_right fun _ => and_congr (by simp) ?_
  constructor
  · rintro ⟨first, hfirst, hkey⟩
    obtain ⟨hmem, hwhy⟩ := List.mem_filter.mp hfirst
    refine ⟨first, hmem, hkey, ?_⟩
    simpa [OnRecord] using hwhy
  · rintro ⟨first, hmem, hkey, hwhy⟩
    refine ⟨first, List.mem_filter.mpr ⟨hmem, ?_⟩, hkey⟩
    simpa [OnRecord] using hwhy

/-- With distinct ids and named sequences nothing is overlooked. -/
theorem selection_of_distinct {rules : List ConstraintRule}
    (hnamed : ∀ rule ∈ rules, sequenceIdsFor rules rule ≠ []) {update : WindowUpdateResult}
    {states after : Table String CachedConstraintState}
    (hsame : ∀ rule ∈ rules, rule ∉ evaluatedRules rules update states →
      stateOf rule.constraintId after = stateOf rule.constraintId states) :
    Selection rules (selectRules rules update states) after where
  subset := fun rule hrule => (mem_selectRules.mp hrule).1
  closed := by
    intro rule hrule other hother hkey
    obtain ⟨-, -, first, hfirst, hfirstKey, hwhy⟩ := mem_selectRules.mp hrule
    exact mem_selectRules.mpr
      ⟨hother, hnamed other hother, first, hfirst, hfirstKey.trans hkey.symm, hwhy⟩
  covers := by
    intro rule hrule hrecord
    by_contra hno
    -- a rule that is not selected is not evaluated, and had its violation before
    have hkept := hsame rule hrule fun heval => hno (List.mem_filter.mp heval).1
    rw [OnRecord, hkept] at hrecord
    exact hno (mem_selectRules.mpr ⟨hrule, hnamed rule hrule, rule, hrule, rfl, Or.inr hrecord⟩)

/-- The notification made of a report over a selection is exact. -/
theorem reportExact_of_selection {p : ProjectId} {rules selected : List ConstraintRule}
    {states : Table String CachedConstraintState} (hsel : Selection rules selected states)
    (hids : (rules.map ConstraintRule.constraintId).Nodup) (hfiled : Filed states)
    (update : WindowUpdateResult) :
    ReportExact p rules states
      (if (reportClauses selected states).isEmpty then none
        else some (notificationFor p rules update (reportClauses selected states))) := by
  have hreport : ∀ id, (∃ violation ∈ reportClauses selected states, violation.constraintId = id) ↔
      ∃ rule ∈ rules, rule.constraintId = id ∧ ClauseViolated rules states rule := by
    intro id
    constructor
    · rintro ⟨violation, hv, rfl⟩
      obtain ⟨rule, hrule, hmem, hall⟩ := (mem_reportClauses hfiled).mp hv
      refine ⟨rule, hsel.subset rule hrule, ((hfiled _).own violation hmem).symm, ?_⟩
      exact (selection_clause hsel hids (hsel.subset rule hrule)).mpr ⟨hrule, hall⟩
    · rintro ⟨rule, hrule, rfl, hclause⟩
      obtain ⟨hmem, hall⟩ := (selection_clause hsel hids hrule).mp hclause
      obtain ⟨violation, hv⟩ := List.exists_mem_of_ne_nil _ (hclause rule hrule (Or.inl rfl))
      exact ⟨violation, (mem_reportClauses hfiled).mpr ⟨rule, hmem, hv, hall⟩,
        (hfiled _).own violation hv⟩
  by_cases hempty : (reportClauses selected states).isEmpty = true
  · rw [if_pos hempty]
    refine ⟨fun _ h => (by cases h), fun _ h => (by cases h), fun _ h => (by cases h),
      iff_of_true rfl fun rule hrule hclause => ?_⟩
    obtain ⟨violation, hv, -⟩ := (hreport rule.constraintId).mpr ⟨rule, hrule, rfl, hclause⟩
    rw [List.isEmpty_iff.mp hempty] at hv
    cases hv
  · rw [if_neg hempty]
    refine ⟨fun n hn => ?_, fun n hn => ?_, fun n hn id => ?_, iff_of_false (by simp) fun hno => ?_⟩
    · rw [← Option.some.inj hn]
      rfl
    · rw [← Option.some.inj hn]
      exact (ascending_sortUnique _ _).imp fun hlt heq => absurd hlt (by rw [heq]; exact lt_irrefl _)
    · rw [← Option.some.inj hn, ← hreport]
      show id ∈ sortUnique (fun id => id) _ ↔ _
      rw [mem_sortUnique_ids, List.mem_map]
    · have hne : reportClauses selected states ≠ [] := fun h => hempty (List.isEmpty_iff.mpr h)
      obtain ⟨violation, hv⟩ := List.exists_mem_of_ne_nil _ hne
      obtain ⟨rule, hrule, -, hclause⟩ := (hreport violation.constraintId).mp ⟨violation, hv, rfl⟩
      exact hno rule hrule hclause

/-! ## The report of a batch -/

theorem checked_states {capacity : Nat} {p : ProjectId} {data : TimeseriesBatch}
    {core checked : CoreService} (h : checkedCore capacity p data core = some checked) :
    cachedStates p checked = cachedStates p core := by
  rw [cachedStates, (checked_spec h).states]
  rfl

/-- A stage that publishes reports from what it published. -/
theorem outcome_of_published {capacity : Nat} {p : ProjectId} {update : WindowUpdateResult}
    {core : CoreService} {after : Table String CachedConstraintState}
    (h : (stageOf capacity p update core).published = some after) :
    ∃ executions, (stageOf capacity p update core).outcome =
      .ok (constraintOutcome p (prepareCheck p core.configs update (cachedStates p core)) update
        executions after) := by
  unfold stageOf constraintStage at h ⊢
  simp only at h ⊢
  split at h
  · cases h
  split at h
  · cases h
  rw [← Option.some.inj h]
  exact ⟨_, rfl⟩

/-- A batch whose evaluations succeed submits the report over its selected rules. -/
theorem submitted_of_published {capacity : Nat} {p : ProjectId} {data : TimeseriesBatch}
    {core : CoreService} {after : Table String CachedConstraintState}
    (hpub : published capacity p data core = some after) :
    submitted capacity p data core =
      (let rules := allEnabledConstraints p core.configs
       let update := batchReport p data core
       let report := reportClauses (selectRules rules update (cachedStates p core)) after
       if report.isEmpty then none else some (notificationFor p rules update report)) := by
  obtain ⟨checked, hchecked, hstage⟩ := Option.bind_eq_some_iff.mp hpub
  have hstates := checked_states hchecked
  have hconfigs := (checked_spec hchecked).configs
  rw [submitted, hchecked]
  simp only [Option.bind_some]
  rw [← hconfigs, ← hstates]
  generalize batchReport p data core = update at hstage ⊢
  have hempty : selectRules (allEnabledConstraints p checked.configs) update
      (cachedStates p checked) = [] →
      (reportClauses (selectRules (allEnabledConstraints p checked.configs) update
        (cachedStates p checked)) after).isEmpty = true := by
    intro hnone
    rw [hnone]
    rfl
  unfold constraintPart
  simp only
  by_cases hrules : (prepareCheck p checked.configs update
      (cachedStates p checked)).enabledRules.isEmpty = true
  · have hnil : allEnabledConstraints p checked.configs = [] := List.isEmpty_iff.mp hrules
    rw [if_pos hrules, if_pos (hempty (by rw [hnil]; rfl))]
  by_cases hselected : (prepareCheck p checked.configs update
      (cachedStates p checked)).selectedRules.isEmpty = true
  · rw [if_neg hrules, if_pos hselected, if_pos (hempty (List.isEmpty_iff.mp hselected))]
  rw [if_neg hrules, if_neg hselected]
  obtain ⟨executions, houtcome⟩ := outcome_of_published hstage
  rw [stageOf] at houtcome
  rw [houtcome]
  show (constraintOutcome p (prepareCheck p checked.configs update (cachedStates p checked))
    update executions after).2 = _
  unfold constraintOutcome
  have hplan : (prepareCheck p checked.configs update (cachedStates p checked)).selectedRules =
      selectRules (allEnabledConstraints p checked.configs) update (cachedStates p checked) := rfl
  simp only [hplan]
  split
  · rfl
  · rfl

/-- The report does not depend on the result of the derived stage. -/
theorem constraintPart_notification (capacity : Nat) (p : ProjectId) (update : WindowUpdateResult)
    (a b : OperationResult) (core : CoreService) :
    (constraintPart capacity p update a core).2.map IngestPipelineResult.notification =
      (constraintPart capacity p update b core).2.map IngestPipelineResult.notification := by
  unfold constraintPart
  simp only
  split
  · rfl
  split
  · rfl
  · generalize (constraintStage capacity p core.configs _ update core.window _).outcome = outcome
    cases outcome with
    | error error => rfl
    | ok outcome => rfl

/-- A batch that returns has submitted what its result carries. -/
theorem process_submits {capacity : Nat} {p : ProjectId} {data : TimeseriesBatch}
    {core : CoreService} {result : IngestPipelineResult}
    (h : (processHotIngest capacity p data core).2 = .ok result) :
    result.notification = submitted capacity p data core := by
  have hupd : (hotUpdate p data core.window).2 = batchReport p data core := rfl
  unfold submitted checkedCore
  simp only [processHotIngest, hupd] at h
  simp only
  split at h
  · rename_i hno
    rw [if_pos hno, ← Except.ok.inj h]
    rfl
  rename_i hok
  rw [if_neg hok]
  cases hd : derivedStage capacity p core.configs (batchReport p data core)
      { window := (hotUpdate p data core.window).1
        lastPublishedGeneration := core.lastPublishedGeneration } with
  | error error =>
      simp only [hd] at h
      split at h
      · cases h
      · generalize (constraintPart capacity p (batchReport p data core) {} _).2 = checked at h
        cases checked with
        | error what => cases h
        | ok checked => cases h
  | ok stage =>
      obtain ⟨derived, derivedResult⟩ := stage
      have hsame := constraintPart_notification capacity p (batchReport p data core) derivedResult {}
        { core with
          window := derived.window
          lastPublishedGeneration := derived.lastPublishedGeneration }
      simp only [hd] at h
      rw [h] at hsame
      simp only [Option.bind_some]
      split
      · rename_i other hother
        rw [hother] at hsame
        exact Except.ok.inj hsame
      · rename_i error herror
        rw [herror] at hsame
        cases hsame

/-- A published state is filed under its id. -/
theorem FiledUnder.publishedState {id : String} {state : CachedConstraintState}
    (h : FiledUnder id state) (update : WindowUpdateResult)
    (execution : ConstraintGroupExecution) :
    FiledUnder id (publishedState update execution id state) := by
  unfold HotIngest.publishedState
  split
  · exact h
  refine ⟨fun hno => (by cases hno), fun violation hv => ?_⟩
  rcases mem_of_mem_assignAll _ hv with hnew | hkept
  · exact of_decide_eq_true (List.mem_filter.mp hnew).2
  · unfold keptViolations at hkept
    split at hkept
    · cases hkept
    · exact h.own violation (List.mem_filter.mp (List.mem_filter.mp hkept).1).1

theorem Filed.publishExecutions {states : Table String CachedConstraintState} (h : Filed states)
    (update : WindowUpdateResult) (executions : List ConstraintGroupExecution) :
    Filed (publishExecutions update executions states) := by
  intro id
  exact publishExecutions_invariant id (fun execution _ hs => hs.publishedState update execution)
    executions (h id)

/-- The cache is filed after a batch. -/
theorem filed_published {capacity : Nat} {p : ProjectId} {data : TimeseriesBatch}
    {core : CoreService} (h : Filed (cachedStates p core))
    {after : Table String CachedConstraintState}
    (hpub : published capacity p data core = some after) : Filed after := by
  intro id
  exact published_invariant id
    (fun execution _ hs => hs.publishedState (batchReport p data core) execution) (h id) hpub

/-- Enabled rules with an id and a named sequence each. -/
structure Distinct (rules : List ConstraintRule) : Prop where
  ids : (rules.map ConstraintRule.constraintId).Nodup
  named : ∀ rule ∈ rules, mappedSequenceIds rule ≠ []

/-- **Exact**, whatever the batch and the cache, when the enabled rules are distinct. -/
theorem reportExact_of_distinct {capacity : Nat} {p : ProjectId} {data : TimeseriesBatch}
    {core : CoreService} (hrules : Distinct (allEnabledConstraints p core.configs))
    (hfiled : Filed (cachedStates p core))
    (hpub : (published capacity p data core).isSome = true) :
    ReportExact p (allEnabledConstraints p core.configs)
      (cachedStates p (processHotIngest capacity p data core).1)
      (submitted capacity p data core) := by
  obtain ⟨after, hafter⟩ := Option.isSome_iff_exists.mp hpub
  have hstates : cachedStates p (processHotIngest capacity p data core).1 = after := by
    rw [(process_states capacity p data core).1, hafter]
    rfl
  rw [hstates, submitted_of_published hafter]
  have hnamed : ∀ rule ∈ allEnabledConstraints p core.configs,
      sequenceIdsFor (allEnabledConstraints p core.configs) rule ≠ [] := by
    intro rule hrule
    rw [sequenceIdsFor_of_mem hrules.ids hrule]
    exact hrules.named rule hrule
  exact reportExact_of_selection
    (selection_of_distinct hnamed fun rule hrule hno =>
      published_unevaluated hrules.ids hrule hno hafter)
    hrules.ids (filed_published hfiled hafter) (batchReport p data core)

/-! ## The locked sections of all requests -/

/-- One section of a request under a lock.  Evaluations read windows and rules of any
    age, so a publication may carry any update and any executions. -/
inductive LockedSection where
  | registry (op : RegistryOp)
  | relations (projectId : ProjectId) (items : List RuntimeRelationConfig)
  | windows (window : WindowService) (lastPublishedGeneration : Nat)
  | publish (projectId : ProjectId) (update : WindowUpdateResult)
      (executions : List ConstraintGroupExecution)
  | forget (projectId : ProjectId)

/-- The service behind a section. -/
def enter (core : CoreService) : LockedSection → CoreService
  | .registry op => { core with configs := RegistryReferences.after core.configs op }
  | .relations projectId items =>
      { core with configs := (upsertRelations projectId items core.configs).1 }
  | .windows window lastPublishedGeneration =>
      { core with window := window, lastPublishedGeneration := lastPublishedGeneration }
  | .publish projectId update executions =>
      { core with
        constraintStates :=
          put projectId (publishExecutions update executions (cachedStates projectId core))
            core.constraintStates }
  | .forget projectId =>
      { core with constraintStates := erase projectId core.constraintStates }

/-- A section that stores nothing under a key that another project reads. -/
def ApartFrom (p : ProjectId) : LockedSection → Prop
  | .registry op => Apart p (opProject op)
  | _ => True

instance (p : ProjectId) (taken : LockedSection) : Decidable (ApartFrom p taken) := by
  cases taken <;> unfold ApartFrom <;> infer_instance

/-- The constraint part changes the windows and may publish. -/
theorem constraintPart_shape (capacity : Nat) (p : ProjectId) (update : WindowUpdateResult)
    (derivedResult : OperationResult) (core : CoreService) :
    ∃ window, (constraintPart capacity p update derivedResult core).1 =
        { core with window := window } ∨
      ∃ executions, (constraintPart capacity p update derivedResult core).1 =
        { core with
          window := window
          constraintStates :=
            put p (publishExecutions update executions (cachedStates p core))
              core.constraintStates } := by
  unfold constraintPart
  simp only
  split
  · exact ⟨core.window, Or.inl rfl⟩
  split
  · exact ⟨core.window, Or.inl rfl⟩
  unfold constraintStage
  simp only
  split
  · exact ⟨_, Or.inl rfl⟩
  split
  · exact ⟨_, Or.inl rfl⟩
  · exact ⟨_, Or.inr ⟨_, rfl⟩⟩

/-- A batch is a few sections that store no configuration. -/
theorem batch_sections (capacity : Nat) (p : ProjectId) (data : TimeseriesBatch)
    (core : CoreService) :
    ∃ taken, (processHotIngest capacity p data core).1 = run enter core taken ∧
      ∀ q, ∀ one ∈ taken, ApartFrom q one := by
  cases hchecked : checkedCore capacity p data core with
  | none =>
      refine ⟨[.windows (hotUpdate p data core.window).1 core.lastPublishedGeneration],
        process_unchecked hchecked, fun q one hone => ?_⟩
      rw [List.mem_singleton.mp hone]
      trivial
  | some checked =>
      obtain ⟨result, heq⟩ := process_checked hchecked
      have hspec := checked_spec hchecked
      have hcore : ∀ window, enter core (.windows window checked.lastPublishedGeneration) =
          { checked with window := window } := by
        intro window
        rw [enter, ← hspec.configs, ← hspec.states]
      obtain ⟨window, hshape | ⟨executions, hshape⟩⟩ :=
        constraintPart_shape capacity p (batchReport p data core) result checked
      · refine ⟨[.windows window checked.lastPublishedGeneration], ?_, fun q one hone => ?_⟩
        · rw [heq, hshape, run_cons, hcore]
          rfl
        · rw [List.mem_singleton.mp hone]
          trivial
      · refine ⟨[.windows window checked.lastPublishedGeneration,
          .publish p (batchReport p data core) executions], ?_, fun q one hone => ?_⟩
        · rw [heq, hshape, run_cons, hcore]
          rfl
        · rcases List.mem_cons.mp hone with rfl | hone
          · trivial
          · rw [List.mem_singleton.mp hone]
            trivial

/-- A sync is a run of sections. -/
theorem sync_sections (p : ProjectId) (items : List RuntimeConstraintConfig)
    (core : CoreService) :
    ∃ taken, (syncConstraints p items core).1 = run enter core taken ∧
      ∀ q, Apart q (snapshotProject p) → ∀ one ∈ taken, ApartFrom q one := by
  unfold syncConstraints
  simp only
  split
  · refine ⟨[.registry (.upsertConstraints p items), .forget p], rfl, fun q hq one hone => ?_⟩
    rcases List.mem_cons.mp hone with rfl | hone
    · exact hq
    · rw [List.mem_singleton.mp hone]
      trivial
  · refine ⟨[.registry (.upsertConstraints p items)], rfl, fun q hq one hone => ?_⟩
    rw [List.mem_singleton.mp hone]
    exact hq

/-! ## What a project reads is its own -/

/-- Every entry is good for its key. -/
def Entries {ν : Type} (good : String → ν → Prop) (table : Table String ν) : Prop :=
  ∀ key config, table.find key = some config → good key config

section Entries

variable {ν : Type} {good : String → ν → Prop} {table old : Table String ν}

theorem entries_empty : Entries good (KeyedTable.empty : Table String ν) := by
  intro key config hfind
  cases hfind

/-- Filing a good entry. -/
theorem Entries.put (h : Entries good table) {key : String} {config : ν}
    (hgood : good key config) : Entries good (put key config table) := by
  intro k c hfind
  rw [find_put] at hfind
  split at hfind
  · rename_i hk
    rw [hk, ← Option.some.inj hfind]
    exact hgood
  · exact h k c hfind

/-- Carrying entries over. -/
theorem Entries.carryOver (h : Entries good table) (hold : Entries good old) (p : ProjectId) :
    Entries good (carryOver p old table) := by
  intro key config hfind
  rw [Registry.carryOver, find_adopt, Option.or_eq_some_iff] at hfind
  rcases hfind with hnew | ⟨-, hkept⟩
  · exact h key config hnew
  · split at hkept
    · exact hold key config hkept
    · cases hkept

end Entries

section Items

variable {project : ProjectId} {goodInstance : String → RuntimeInstanceConfig → Prop}
  (hinstance : ∀ item : RuntimeInstanceConfig, item.sequenceId ≠ "" →
    goodInstance (scopedKey project item.sequenceId) { item with projectId := project })

include hinstance

/-- Inserting instances keeps the entries good. -/
theorem upsertInstanceItems_entries {items : List RuntimeInstanceConfig} {seen : List SequenceId}
    {indexes out : InstanceIndexes} (h : Entries goodInstance indexes.instances)
    (heq : upsertInstanceItems project items seen indexes = .ok out) :
    Entries goodInstance out.instances := by
  induction items generalizing seen indexes with
  | nil =>
      cases heq
      exact h
  | cons item items ih =>
      rw [upsertInstanceItems] at heq
      split at heq
      · cases heq
      rename_i hnamed
      split at heq
      · cases heq
      simp only at heq
      split at heq
      · cases heq
      refine ih (h.put (hinstance item fun hempty => hnamed ?_)) heq
      rw [hempty]
      rfl

/-- Replacing instances keeps the entries good. -/
theorem replaceInstanceItems_entries {items : List RuntimeInstanceConfig}
    {indexes out : InstanceIndexes} (h : Entries goodInstance indexes.instances)
    (heq : replaceInstanceItems project items indexes = .ok out) :
    Entries goodInstance out.instances := by
  induction items generalizing indexes with
  | nil =>
      cases heq
      exact h
  | cons item items ih =>
      rw [replaceInstanceItems] at heq
      split at heq
      · cases heq
      rename_i hnamed
      split at heq
      · cases heq
      simp only at heq
      split at heq
      · cases heq
      refine ih (h.put (hinstance item fun hempty => hnamed ?_)) heq
      rw [hempty]
      rfl

end Items

section Rules

variable {project : ProjectId} {registry : RuntimeConfigRegistry}
  {goodRule : String → RuntimeConstraintConfig → Prop}
  (hrule : ∀ item : RuntimeConstraintConfig,
    (∃ properties, validateConstraintRule item.rule = .ok properties) →
      unknownSequence project item.rule registry = none →
        goodRule (scopedKey project item.rule.constraintId) { item with projectId := project })

include hrule

/-- Inserting rules keeps the entries good. -/
theorem upsertConstraintItems_entries {items : List RuntimeConstraintConfig}
    {seen : List String} {constraints out : Table String RuntimeConstraintConfig}
    (h : Entries goodRule constraints)
    (heq : upsertConstraintItems project registry items seen constraints = .ok out) :
    Entries goodRule out := by
  induction items generalizing seen constraints with
  | nil =>
      cases heq
      exact h
  | cons item items ih =>
      rw [upsertConstraintItems] at heq
      split at heq
      · cases heq
      split at heq
      · cases heq
      rename_i properties hvalid
      split at heq
      · cases heq
      rename_i hknown
      exact ih (h.put (hrule item ⟨properties, hvalid⟩ hknown)) heq

/-- Replacing rules keeps the entries good. -/
theorem replaceConstraintItems_entries {items : List RuntimeConstraintConfig}
    {constraints out : Table String RuntimeConstraintConfig} (h : Entries goodRule constraints)
    (heq : replaceConstraintItems project registry items constraints = .ok out) :
    Entries goodRule out := by
  induction items generalizing constraints with
  | nil =>
      cases heq
      exact h
  | cons item items ih =>
      rw [replaceConstraintItems] at heq
      split at heq
      · cases heq
      rename_i properties hvalid
      split at heq
      · cases heq
      rename_i hknown
      split at heq
      · cases heq
      exact ih (h.put (hrule item ⟨properties, hvalid⟩ hknown)) heq

end Rules

/-- An instance key the project reads names a sequence. -/
def NamedInstance (p : ProjectId) (key : String) (_ : RuntimeInstanceConfig) : Prop :=
  hasPrefix (scopePrefix p) key = true → ∃ s, s ≠ "" ∧ key = scopedKey p s

/-- A rule the project reads stands under its own id and maps a named sequence. -/
def OwnRule (p : ProjectId) (key : String) (config : RuntimeConstraintConfig) : Prop :=
  hasPrefix (scopePrefix p) key = true →
    key = scopedKey p config.rule.constraintId ∧ mappedSequenceIds config.rule ≠ []

/-- **What every section keeps.** -/
structure OwnEntries (p : ProjectId) (core : CoreService) : Prop where
  instances : Entries (NamedInstance p) core.configs.instanceConfigs
  rules : Entries (OwnRule p) core.configs.constraints
  filed : ∀ q, Filed (cachedStates q core)

theorem namedInstance_of_apart {p project : ProjectId} (h : Apart p project)
    (item : RuntimeInstanceConfig) (hnamed : item.sequenceId ≠ "") :
    NamedInstance p (scopedKey project item.sequenceId) { item with projectId := project } := by
  intro hsees
  rw [project_of_seen h hsees]
  exact ⟨item.sequenceId, hnamed, rfl⟩

/-- A rule is filed under its own id. -/
theorem ownRule_of_apart {p project : ProjectId} (h : Apart p project)
    {registry : RuntimeConfigRegistry} (hinstances : Entries (NamedInstance p) registry.instanceConfigs)
    (item : RuntimeConstraintConfig)
    (hvalid : ∃ properties, validateConstraintRule item.rule = .ok properties)
    (hknown : unknownSequence project item.rule registry = none) :
    OwnRule p (scopedKey project item.rule.constraintId) { item with projectId := project } := by
  intro hsees
  have hproject := project_of_seen h hsees
  subst hproject
  refine ⟨rfl, ?_⟩
  obtain ⟨properties, hproperties⟩ := hvalid
  obtain ⟨-, hmapping, -⟩ := validateConstraintRule_inv hproperties
  obtain ⟨variableName, hkey⟩ := List.exists_mem_of_ne_nil _ hmapping
  obtain ⟨sequenceId, hfind⟩ := Option.isSome_iff_exists.mp
    ((item.rule.variableMapping.mem_keys _).mp hkey)
  obtain ⟨config, hconfig⟩ := Option.isSome_iff_exists.mp (mapped_of_known hknown hfind)
  -- the instance of the mapped sequence stands under a name of its own
  obtain ⟨s, hs, hsame⟩ := hinstances _ config hconfig (sees_own p sequenceId)
  have hnamed : sequenceId ≠ "" := by
    rw [scopedKey_inj hsame]
    exact hs
  refine List.ne_nil_of_mem (a := sequenceId) (mem_sortUnique_ids.mpr ?_)
  refine List.mem_filter.mpr ⟨List.mem_filterMap.mpr ⟨variableName, hkey, hfind⟩, ?_⟩
  simpa [String.isEmpty_iff] using hnamed

theorem ownEntries_empty (p : ProjectId) : OwnEntries p {} where
  instances := entries_empty
  rules := entries_empty
  filed := fun _ => nothing_filed

/-- An operation on the registry keeps the entries. -/
theorem OwnEntries.registry {p : ProjectId} {core : CoreService} (h : OwnEntries p core)
    {op : RegistryOp} (hop : Apart p (opProject op)) : OwnEntries p (enter core (.registry op)) := by
  refine ⟨?_, ?_, h.filed⟩
  · show Entries _ (RegistryReferences.after core.configs op).instanceConfigs
    unfold RegistryReferences.after perform
    cases op with
    | replaceInstances projectId items =>
        simp only [replaceInstanceConfigs]
        split
        · exact h.instances
        · rename_i indexes hitems
          exact (replaceInstanceItems_entries (namedInstance_of_apart hop) entries_empty
            hitems).carryOver h.instances _
    | upsertInstances projectId items =>
        simp only [upsertInstanceConfigs]
        split
        · exact h.instances
        · rename_i indexes hitems
          exact upsertInstanceItems_entries (namedInstance_of_apart hop) h.instances hitems
    | replaceConstraints projectId items =>
        simp only [replaceConstraints]
        split
        · exact h.instances
        · exact h.instances
    | upsertConstraints projectId items =>
        simp only [upsertConstraints]
        split
        · exact h.instances
        · exact h.instances
    | upsertDerivedSeries projectId items =>
        simp only [upsertDerivedSeriesConfigs]
        split
        · exact h.instances
        · exact h.instances
  · show Entries _ (RegistryReferences.after core.configs op).constraints
    unfold RegistryReferences.after perform
    cases op with
    | replaceInstances projectId items =>
        simp only [replaceInstanceConfigs]
        split
        · exact h.rules
        · exact h.rules
    | upsertInstances projectId items =>
        simp only [upsertInstanceConfigs]
        split
        · exact h.rules
        · exact h.rules
    | replaceConstraints projectId items =>
        simp only [replaceConstraints]
        split
        · exact h.rules
        · rename_i constraints hitems
          exact (replaceConstraintItems_entries (ownRule_of_apart hop h.instances) entries_empty
            hitems).carryOver h.rules _
    | upsertConstraints projectId items =>
        simp only [upsertConstraints]
        split
        · exact h.rules
        · rename_i constraints hitems
          exact upsertConstraintItems_entries (ownRule_of_apart hop h.instances) h.rules hitems
    | upsertDerivedSeries projectId items =>
        simp only [upsertDerivedSeriesConfigs]
        split
        · exact h.rules
        · exact h.rules

/-- The cache of a project behind a publication. -/
theorem cachedStates_publish (core : CoreService) (p : ProjectId) (update : WindowUpdateResult)
    (executions : List ConstraintGroupExecution) :
    cachedStates p (enter core (.publish p update executions)) =
      publishExecutions update executions (cachedStates p core) := by
  rw [cachedStates, enter, find_put_self, Option.getD_some]

/-- Every section files violations under their own rules. -/
theorem filed_enter {core : CoreService} (h : ∀ q, Filed (cachedStates q core))
    (taken : LockedSection) (q : ProjectId) : Filed (cachedStates q (enter core taken)) := by
  cases taken with
  | registry op => exact h q
  | relations projectId items => exact h q
  | windows window generation => exact h q
  | publish projectId update executions =>
      by_cases hq : q = projectId
      · subst hq
        rw [cachedStates_publish]
        exact (h q).publishExecutions update executions
      · have hcache : cachedStates q (enter core (.publish projectId update executions)) =
            cachedStates q core := by
          rw [cachedStates, enter, find_put_of_ne hq]
          rfl
        rw [hcache]
        exact h q
  | forget projectId =>
      by_cases hq : q = projectId
      · subst hq
        have hcache : cachedStates q (enter core (.forget q)) = KeyedTable.empty := by
          rw [cachedStates, enter, find_erase_self]
          rfl
        rw [hcache]
        exact nothing_filed
      · have hcache : cachedStates q (enter core (.forget projectId)) = cachedStates q core := by
          rw [cachedStates, enter, find_erase_of_ne hq]
          rfl
        rw [hcache]
        exact h q

/-- Every section keeps the entries. -/
theorem OwnEntries.step {p : ProjectId} {core : CoreService} (h : OwnEntries p core)
    {taken : LockedSection} (ht : ApartFrom p taken) : OwnEntries p (enter core taken) := by
  cases taken with
  | registry op => exact h.registry ht
  | relations projectId items =>
      have hsame : (upsertRelations projectId items core.configs).1.instanceConfigs =
            core.configs.instanceConfigs ∧
          (upsertRelations projectId items core.configs).1.constraints =
            core.configs.constraints := by
        unfold upsertRelations
        split
        · exact ⟨rfl, rfl⟩
        · exact ⟨rfl, rfl⟩
      refine ⟨?_, ?_, h.filed⟩
      · show Entries _ (upsertRelations projectId items core.configs).1.instanceConfigs
        rw [hsame.1]
        exact h.instances
      · show Entries _ (upsertRelations projectId items core.configs).1.constraints
        rw [hsame.2]
        exact h.rules
  | windows window generation => exact ⟨h.instances, h.rules, h.filed⟩
  | publish projectId update executions =>
      exact ⟨h.instances, h.rules, filed_enter h.filed (.publish projectId update executions)⟩
  | forget projectId => exact ⟨h.instances, h.rules, filed_enter h.filed (.forget projectId)⟩

theorem OwnEntries.distinct {p : ProjectId} {core : CoreService} (h : OwnEntries p core) :
    Distinct (allEnabledConstraints p core.configs) := by
  obtain ⟨hids, hnamed⟩ := @enabled_of_own p core.configs (fun rule => mappedSequenceIds rule ≠ [])
    fun key config hfind hsees => h.rules key config hfind hsees
  exact ⟨hids, hnamed⟩

/-- **The persistent report is exact** in every state the locked sections of any requests
    lead to, when no configuration was stored for a project whose keys overlap. -/
theorem persistent_report_exact (capacity : Nat) {p : ProjectId} {taken : List LockedSection}
    (hapart : ∀ one ∈ taken, ApartFrom p one) (data : TimeseriesBatch)
    (hsucceed : (published capacity p data (run enter {} taken)).isSome = true) :
    ReportExact p (allEnabledConstraints p (run enter {} taken).configs)
      (cachedStates p (processHotIngest capacity p data (run enter {} taken)).1)
      (submitted capacity p data (run enter {} taken)) := by
  have hown : OwnEntries p (run enter {} taken) :=
    run_invariant (fun _ _ hone h => h.step hone) (ownEntries_empty p) hapart
  exact reportExact_of_distinct hown.distinct (hown.filed p) hsucceed

/-! ## A key of another project

Three rules bound the values of a sequence; the third is stored for the project
`p<U+001E>q`, whose keys begin with `p<U+001E>`. -/

/-- The sections of two syncs of `p`. -/
def twoRules : List LockedSection :=
  [.registry (.upsertInstances "p" [instanceOf "s", instanceOf "t"]),
    .registry (.upsertConstraints "p" [boundOn "r" "s" "h", boundOn "c" "t" "h"]), .forget "p"]

/-- Two rules of one clause, one of them violated. -/
theorem persistent_report_exact_two_rules :
    ReportExact "p" (allEnabledConstraints "p" (run enter {} twoRules).configs)
      (cachedStates "p" (processHotIngest 4 "p"
        { points := [sampleAt "s" 0 100, sampleAt "t" 1 0] } (run enter {} twoRules)).1)
      (submitted 4 "p" { points := [sampleAt "s" 0 100, sampleAt "t" 1 0] }
        (run enter {} twoRules)) :=
  persistent_report_exact 4 (by decide +kernel) _ (by decide +kernel)

/-- A point of `s` arrives, `p` synchronises two rules of one OR group and `p<U+001E>q`
    a rule with an id of theirs. -/
def foreignRule : CoreService :=
  let registered := run enter {} [.registry (.upsertInstances "p" [instanceOf "s", instanceOf "t"])]
  let filled := (processHotIngest 4 "p" { points := [sampleAt "s" 0 100] } registered).1
  let own := (syncConstraints "p" [boundOn "r" "s" "h", boundOn "c" "t" "h"] filled).1
  let foreign := run enter own [.registry (.upsertInstances "p\x1eq" [instanceOf "s"])]
  (syncConstraints "p\x1eq" [boundOn "r" "s" ""] foreign).1

/-- A later value of `t`. -/
def lateBatch : TimeseriesBatch := { points := [sampleAt "t" 1 0] }

theorem foreignRule_rules : allEnabledConstraints "p" foreignRule.configs =
    [(boundOn "c" "t" "h").rule, (boundOn "r" "s" "h").rule, (boundOn "r" "s" "").rule] := rfl

/-- The next batch touches `t` and evaluates `r` for its OR group, which stays satisfied;
    the clause of the other `r` is violated from then on and not reported. -/
theorem report_misses_foreign_clause :
    (published 4 "p" lateBatch foreignRule).isSome = true ∧
      ¬ ReportExact "p" (allEnabledConstraints "p" foreignRule.configs)
        (cachedStates "p" (processHotIngest 4 "p" lateBatch foreignRule).1)
        (submitted 4 "p" lateBatch foreignRule) := by
  refine ⟨by decide +kernel, fun h => ?_⟩
  rw [foreignRule_rules] at h
  have hnothing : submitted 4 "p" lateBatch foreignRule = none := by decide +kernel
  refine h.nothing.mp hnothing (boundOn "r" "s" "").rule (by simp) fun other hother hsame => ?_
  have hid : other.constraintId = "r" := by
    rcases hsame with rfl | ⟨hgroup, -⟩
    · rfl
    · exact absurd rfl hgroup
  show (stateOf other.constraintId _).violations ≠ []
  rw [hid]
  decide +kernel

end PersistentReport
