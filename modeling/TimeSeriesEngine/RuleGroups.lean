import TimeSeriesEngine.ConstraintScan
import TimeSeriesEngine.IngestFrame

/-!
# Rules, groups and publications

The bookkeeping around the evaluation of a rule.

* `plan_rules_perm` — every evaluated rule is in exactly one group;
* `group_of_rule` — the group of a single-sequence sample rule;
* `runGroups_spec` — executions belong to groups one by one;
* `publishExecutions_state` — the cache entry of a rule changes once, by the
  execution of its own group.
-/

namespace RuleGroups

open TseTypes KeyedTable OrderedSeries SlidingWindows HotWindow ConstraintCheck Registry
open UpdateRange DerivedSeries HotIngest ConstraintScan

/-! ## The rules of a project -/

/-- Where every key the project reads is the key of the rule below it, the enabled
    rules have distinct ids. -/
theorem enabled_of_own {p : ProjectId} {registry : RuntimeConfigRegistry}
    {good : ConstraintRule → Prop}
    (hown : ∀ key config, registry.constraints.find key = some config →
      hasPrefix (scopePrefix p) key = true →
        key = scopedKey p config.rule.constraintId ∧ good config.rule) :
    ((allEnabledConstraints p registry).map ConstraintRule.constraintId).Nodup ∧
      ∀ r ∈ allEnabledConstraints p registry, good r := by
  have hperm : (allEnabledConstraints p registry).Perm
      (((projectConfigs p registry.constraints).filter fun config => config.enabled).map
        fun config => config.rule) := List.perm_insertionSort _ _
  constructor
  · refine ((hperm.map ConstraintRule.constraintId).nodup_iff).mpr ?_
    rw [List.map_map]
    refine List.Nodup.sublist (List.filter_sublist.map _) ?_
    unfold projectConfigs
    rw [List.map_filterMap, List.filterMap_filter]
    refine List.Nodup.filterMap ?_ registry.constraints.nodup
    -- a selected key is the project's key of its rule's id
    have hkey : ∀ key id, id ∈ (if hasPrefix (scopePrefix p) key = true then
        (registry.constraints.find key).map fun config => config.rule.constraintId else none) →
          key = scopedKey p id := by
      intro key id hmem
      split at hmem
      · rename_i hpre
        obtain ⟨config, hfind, rfl⟩ := Option.map_eq_some_iff.mp hmem
        exact (hown key config hfind hpre).1
      · exact nomatch hmem
    intro key key' id hid hid'
    exact (hkey key id hid).trans (hkey key' id hid').symm
  · intro r hr
    obtain ⟨config, hc, rfl⟩ := List.mem_map.mp (hperm.mem_iff.mp hr)
    obtain ⟨key, hkey, hfind⟩ := List.mem_filterMap.mp (List.mem_filter.mp hc).1
    exact (hown key config hfind (List.mem_filter.mp hkey).2).2

/-! ## The sequences of a rule -/

/-- With distinct ids a rule is found by its id. -/
theorem find_of_nodup {rules : List ConstraintRule}
    (hids : (rules.map ConstraintRule.constraintId).Nodup) {rule : ConstraintRule}
    (h : rule ∈ rules) :
    rules.find? (fun first => first.constraintId = rule.constraintId) = some rule := by
  induction rules with
  | nil => exact nomatch h
  | cons first rest ih =>
      obtain ⟨hfirst, hids'⟩ := List.nodup_cons.mp hids
      rcases List.mem_cons.mp h with rfl | h'
      · rw [List.find?_cons_of_pos (by simp)]
      · have hne : first.constraintId ≠ rule.constraintId := by
          intro he
          refine hfirst ?_
          rw [he]
          exact List.mem_map_of_mem h'
        rw [List.find?_cons_of_neg (by simpa using hne)]
        exact ih hids' h'

theorem sequenceIdsFor_of_mem {rules : List ConstraintRule}
    (hids : (rules.map ConstraintRule.constraintId).Nodup) {rule : ConstraintRule}
    (h : rule ∈ rules) : sequenceIdsFor rules rule = mappedSequenceIds rule := by
  rw [sequenceIdsFor, find_of_nodup hids h]
  rfl

/-- Sorting ids keeps them. -/
theorem mem_sortUnique_ids {ids : List String} {id : String} :
    id ∈ sortUnique (fun id => id) ids ↔ id ∈ ids := by
  constructor
  · exact mem_of_mem_sortUnique _
  · intro h
    rw [mem_sortUnique]
    cases hl : lastAt (fun id => id) id ids with
    | none => exact absurd rfl ((lastAt_eq_none (fun id => id)).mp hl id h)
    | some last => rw [(lastAt_some _ hl).2]

theorem mappedSequenceIds_named {rule : ConstraintRule} {s : SequenceId}
    (h : s ∈ mappedSequenceIds rule) : s ≠ "" := by
  rw [mappedSequenceIds, mem_sortUnique_ids, List.mem_filter] at h
  intro he
  rw [he] at h
  exact absurd h.2 (by decide)

/-- A single-sequence rule maps to its sequence. -/
theorem mappingTargets_single {rule : ConstraintRule} {s : SequenceId}
    (h : singleSequence rule = some s) (t : SequenceId) : t ∈ mappingTargets rule ↔ t = s := by
  rw [singleSequence] at h
  split at h
  · exact nomatch h
  · rename_i first rest heq
    split at h
    · rename_i hall
      rw [← Option.some.inj h, heq, List.mem_cons]
      constructor
      · rintro (h | h)
        · exact h
        · exact of_decide_eq_true (List.all_eq_true.mp hall t h)
      · exact Or.inl
    · exact nomatch h

/-- A rule on one sequence has that sequence in its cache entry, and no other. -/
theorem mappedSequenceIds_single {rule : ConstraintRule} {s : SequenceId}
    (hr : SampleRuleOn rule s) : mappedSequenceIds rule = [s] := by
  refine ascending_ext (fun id => id) (ascending_sortUnique _ _) (List.pairwise_singleton _ s)
    fun t => ?_
  rw [mappedSequenceIds, mem_sortUnique_ids, List.mem_filter, mappingTargets_single hr.single,
    List.mem_singleton]
  constructor
  · exact fun h => h.1
  · rintro rfl
    exact ⟨rfl, by simpa [String.isEmpty_iff] using hr.named⟩

/-- A rule over samples is no aggregate. -/
theorem isAggregate_samples {rule : ConstraintRule} (h : AllSamples rule) :
    isAggregate rule = false := by
  unfold isAggregate
  cases hterms : rule.terms with
  | nil => rfl
  | cons term terms =>
      have := h term (by rw [hterms]; exact List.mem_cons_self ..)
      show isWindowAggregation term.aggregation = false
      rw [this]
      rfl

/-! ## Every evaluated rule is in one group -/

/-- The groups contain each rule once. -/
theorem addRuleGroups_perm (rules : List ConstraintRule) (update : WindowUpdateResult)
    (group : List ConstraintRule) :
    ((addRuleGroups rules update group).flatMap ConstraintGroupSpec.rules).Perm group := by
  have hflat : (addRuleGroups rules update group).flatMap ConstraintGroupSpec.rules =
      safeRules rules update group ++ unsafeRules rules update group := by
    unfold addRuleGroups
    simp only [List.flatMap_append]
    congr 1
    · cases safeRules rules update group with
      | nil => rfl
      | cons r rs => exact List.append_nil _
    · cases unsafeRules rules update group with
      | nil => rfl
      | cons r rs => exact List.append_nil _
  rw [hflat]
  have hneg : unsafeRules rules update group =
      group.filter fun rule => !(ruleRange rules update rule).isSome :=
    List.filter_congr fun rule _ => by cases ruleRange rules update rule <;> rfl
  rw [hneg]
  exact List.filter_append_perm _ group

/-- The groups contain each rule once when clauses are kept together. -/
theorem addWithoutMixing_perm (rules : List ConstraintRule) (update : WindowUpdateResult)
    (group : List ConstraintRule) :
    ((addWithoutMixingOrClauses rules update group).flatMap ConstraintGroupSpec.rules).Perm
      group := by
  unfold addWithoutMixingOrClauses
  rw [List.flatMap_append]
  have halone : ∀ list : List ConstraintRule,
      ((list.flatMap fun rule => addRuleGroups rules update [rule]).flatMap
        ConstraintGroupSpec.rules).Perm list := by
    intro list
    induction list with
    | nil => exact List.Perm.nil
    | cons rule rest ih =>
        rw [List.flatMap_cons, List.flatMap_append]
        exact (addRuleGroups_perm rules update [rule]).append ih
  have hneg : (group.filter fun rule => rule.orGroupId.isEmpty) =
      group.filter fun rule => !!rule.orGroupId.isEmpty :=
    List.filter_congr fun rule _ => (Bool.not_not _).symm
  refine ((halone _).append (addRuleGroups_perm rules update _)).trans ?_
  rw [hneg]
  exact List.filter_append_perm _ group

/-- The rules of all groups and the aggregate rules are the evaluated rules. -/
theorem plan_rules_perm (p : ProjectId) (registry : RuntimeConfigRegistry)
    (update : WindowUpdateResult) (states : Table String CachedConstraintState) :
    let rules := allEnabledConstraints p registry
    let plan := prepareCheck p registry update states
    (plan.groups.flatMap ConstraintGroupSpec.rules ++ plan.aggregateRules).Perm
      (evaluatedRules rules update states) := by
  intro rules plan
  have hgroups : (plan.groups.flatMap ConstraintGroupSpec.rules).Perm
      (singleRules rules update states ++ multiRules rules update states) := by
    show ((addWithoutMixingOrClauses rules update (singleRules rules update states) ++
      addWithoutMixingOrClauses rules update (multiRules rules update states)).flatMap
        ConstraintGroupSpec.rules).Perm _
    rw [List.flatMap_append]
    exact (addWithoutMixing_perm ..).append (addWithoutMixing_perm ..)
  have hsample : (singleRules rules update states ++ multiRules rules update states).Perm
      ((evaluatedRules rules update states).filter fun rule => !isAggregate rule) := by
    have hsingle : singleRules rules update states =
        ((evaluatedRules rules update states).filter fun rule => !isAggregate rule).filter
          fun rule => decide ((sequenceIdsFor rules rule).length = 1) := by
      rw [List.filter_filter]
      exact List.filter_congr fun rule _ => Bool.and_comm _ _
    have hmulti : multiRules rules update states =
        ((evaluatedRules rules update states).filter fun rule => !isAggregate rule).filter
          fun rule => !decide ((sequenceIdsFor rules rule).length = 1) := by
      rw [List.filter_filter]
      refine List.filter_congr fun rule hrule => ?_
      -- a selected rule has at least one sequence
      have hne : sequenceIdsFor rules rule ≠ [] := by
        have hsel := (List.mem_filter.mp (List.mem_filter.mp hrule).1).2
        simpa using (Bool.and_eq_true_iff.mp hsel).1
      have hpos := List.length_pos_iff.mpr hne
      rw [Bool.and_comm]
      refine congrArg (· && !isAggregate rule) ?_
      by_cases h1 : (sequenceIdsFor rules rule).length = 1
      · simp [h1]
      · have h2 : 1 < (sequenceIdsFor rules rule).length := by omega
        simp [h1, h2]
    rw [hsingle, hmulti]
    exact List.filter_append_perm _ _
  have hall := (hgroups.trans hsample).append_right plan.aggregateRules
  refine hall.trans ?_
  show (((evaluatedRules rules update states).filter fun rule => !isAggregate rule) ++
    (evaluatedRules rules update states).filter isAggregate).Perm _
  refine List.perm_append_comm.trans ?_
  exact List.filter_append_perm _ _

theorem evaluatedRules_subset {rules : List ConstraintRule} {update : WindowUpdateResult}
    {states : Table String CachedConstraintState} {rule : ConstraintRule}
    (h : rule ∈ evaluatedRules rules update states) : rule ∈ rules :=
  (List.mem_filter.mp (List.mem_filter.mp h).1).1

theorem evaluatedRules_nodup {rules : List ConstraintRule}
    (hids : (rules.map ConstraintRule.constraintId).Nodup) (update : WindowUpdateResult)
    (states : Table String CachedConstraintState) :
    ((evaluatedRules rules update states).map ConstraintRule.constraintId).Nodup := by
  refine hids.sublist (List.Sublist.map _ ?_)
  exact List.filter_sublist.trans List.filter_sublist

/-! ## The group of a rule -/

/-- A group as `makeGroup` builds it for single-sequence rules. -/
structure SingleGroup (rules : List ConstraintRule) (update : WindowUpdateResult)
    (members : List ConstraintRule) (group : ConstraintGroupSpec) : Prop where
  shape : group = makeGroup rules members group.range
  range : (∀ q ∈ members, (ruleRange rules update q).isSome) ∧
      group.range = unionRange (members.filterMap (ruleRange rules update)) ∨
    (∀ q ∈ members, ruleRange rules update q = none) ∧ group.range = none
  subset : ∀ q ∈ members, q ∈ rules ∧ (sequenceIdsFor rules q).length = 1
  ids : (members.map ConstraintRule.constraintId).Nodup
  clauses : (members.map clauseKey).Nodup

/-- A group is that of the safe rules, or of the others. -/
theorem mem_addRuleGroups {rules : List ConstraintRule} {update : WindowUpdateResult}
    {group : List ConstraintRule} {spec : ConstraintGroupSpec}
    (h : spec ∈ addRuleGroups rules update group) :
    (safeRules rules update group ≠ [] ∧
        spec = makeGroup rules (safeRules rules update group)
          (unionRange ((safeRules rules update group).filterMap (ruleRange rules update)))) ∨
      (unsafeRules rules update group ≠ [] ∧
        spec = makeGroup rules (unsafeRules rules update group) none) := by
  unfold addRuleGroups at h
  simp only [List.mem_append] at h
  rcases h with h | h
  · split at h
    · exact nomatch h
    · rename_i hne
      exact Or.inl ⟨by simpa using hne, List.mem_singleton.mp h⟩
  · split at h
    · exact nomatch h
    · rename_i hne
      exact Or.inr ⟨by simpa using hne, List.mem_singleton.mp h⟩

/-- A group of single-sequence rules is one that `makeGroup` builds for them. -/
theorem singleGroup_of {rules : List ConstraintRule} {update : WindowUpdateResult}
    {group : List ConstraintRule} {spec : ConstraintGroupSpec}
    (h : spec ∈ addRuleGroups rules update group)
    (hsub : ∀ q ∈ group, q ∈ rules ∧ (sequenceIdsFor rules q).length = 1)
    (hids : (group.map ConstraintRule.constraintId).Nodup) (hkeys : (group.map clauseKey).Nodup) :
    ∃ members, spec.rules = members ∧ SingleGroup rules update members spec := by
  rcases mem_addRuleGroups h with ⟨-, rfl⟩ | ⟨-, rfl⟩
  · refine ⟨_, rfl, rfl, Or.inl ⟨fun q hq => (List.mem_filter.mp hq).2, rfl⟩,
      fun q hq => hsub q (List.mem_filter.mp hq).1,
      hids.sublist (List.filter_sublist.map _), hkeys.sublist (List.filter_sublist.map _)⟩
  · refine ⟨_, rfl, rfl, Or.inr ⟨fun q hq => ?_, rfl⟩,
      fun q hq => hsub q (List.mem_filter.mp hq).1,
      hids.sublist (List.filter_sublist.map _), hkeys.sublist (List.filter_sublist.map _)⟩
    exact Option.isNone_iff_eq_none.mp (List.mem_filter.mp hq).2

theorem clauseKey_ordinary {rule : ConstraintRule} (h : rule.orGroupId.isEmpty = true) :
    clauseKey rule = "\x1f" ++ rule.constraintId := if_pos h

/-- Groups built from single-sequence rules have one clause per rule. -/
theorem mem_addWithoutMixing_single {rules : List ConstraintRule} {update : WindowUpdateResult}
    {group : List ConstraintRule} {spec : ConstraintGroupSpec}
    (h : spec ∈ addWithoutMixingOrClauses rules update group)
    (hsub : ∀ q ∈ group, q ∈ rules ∧ (sequenceIdsFor rules q).length = 1)
    (hids : (group.map ConstraintRule.constraintId).Nodup) :
    SingleGroup rules update spec.rules spec := by
  unfold addWithoutMixingOrClauses at h
  rcases List.mem_append.mp h with h | h
  · obtain ⟨rule, hrule, hspec⟩ := List.mem_flatMap.mp h
    have hmem := (List.mem_filter.mp hrule).1
    obtain ⟨members, rfl, hgroup⟩ := singleGroup_of hspec
      (fun q hq => by rw [List.mem_singleton.mp hq]; exact hsub rule hmem)
      (List.nodup_singleton _) (List.nodup_singleton _)
    exact hgroup
  · have hord : ∀ q ∈ group.filter fun rule => rule.orGroupId.isEmpty,
        clauseKey q = "\x1f" ++ q.constraintId :=
      fun q hq => clauseKey_ordinary (List.mem_filter.mp hq).2
    have hids' := hids.sublist (List.Sublist.map ConstraintRule.constraintId
      (List.filter_sublist (p := fun rule : ConstraintRule => rule.orGroupId.isEmpty)))
    obtain ⟨members, rfl, hgroup⟩ := singleGroup_of h
      (fun q hq => hsub q (List.mem_filter.mp hq).1) hids' (by
        rw [List.map_congr_left hord]
        have hmap := hids'.map (f := fun id : String => "\x1f" ++ id)
          fun a b hab => append_right_inj_string hab
        rw [List.map_map] at hmap
        exact hmap)
    exact hgroup

/-- **The group of a rule** that reads one sequence. -/
theorem group_of_rule {p : ProjectId} {registry : RuntimeConfigRegistry}
    {update : WindowUpdateResult} {states : Table String CachedConstraintState}
    (hids : ((allEnabledConstraints p registry).map ConstraintRule.constraintId).Nodup)
    {rule : ConstraintRule}
    (h : rule ∈ singleRules (allEnabledConstraints p registry) update states) :
    ∃ group ∈ (prepareCheck p registry update states).groups, rule ∈ group.rules ∧
      SingleGroup (allEnabledConstraints p registry) update group.rules group := by
  have hperm := addWithoutMixing_perm (allEnabledConstraints p registry) update
    (singleRules (allEnabledConstraints p registry) update states)
  obtain ⟨group, hgroup, hrule⟩ := List.mem_flatMap.mp (hperm.mem_iff.mpr h)
  refine ⟨group, List.mem_append.mpr (Or.inl hgroup), hrule,
    mem_addWithoutMixing_single hgroup (fun q hq => ?_) ?_⟩
  · obtain ⟨hq1, hq2⟩ := List.mem_filter.mp hq
    exact ⟨evaluatedRules_subset hq1, of_decide_eq_true (Bool.and_eq_true_iff.mp hq2).2⟩
  · exact (evaluatedRules_nodup hids update states).sublist (List.filter_sublist.map _)

/-! ## Executions -/

/-- An execution is that of the rules of its group. -/
theorem runGroup_rules {capacity : Nat} {p : ProjectId} {registry : RuntimeConfigRegistry}
    {rules : List ConstraintRule} {service : WindowService} {group : ConstraintGroupSpec}
    {execution : ConstraintGroupExecution}
    (h : runGroup capacity p registry rules service group = .ok execution) :
    execution.rules = group.rules ∧ execution.range = group.range := by
  unfold runGroup at h
  split at h
  · rw [← Except.ok.inj h]
    exact ⟨rfl, rfl⟩
  · split at h
    · exact nomatch h
    · rw [← Except.ok.inj h]
      exact ⟨rfl, rfl⟩

/-- Executions belong to groups one by one. -/
theorem runGroups_spec {capacity : Nat} {p : ProjectId} {registry : RuntimeConfigRegistry}
    {rules : List ConstraintRule} {service : WindowService} {groups : List ConstraintGroupSpec}
    {executions : List ConstraintGroupExecution}
    (h : runGroups capacity p registry rules service groups = .ok executions) :
    executions.flatMap ConstraintGroupExecution.rules =
        groups.flatMap ConstraintGroupSpec.rules ∧
      ∀ group ∈ groups, ∃ execution ∈ executions,
        runGroup capacity p registry rules service group = .ok execution := by
  induction groups generalizing executions with
  | nil =>
      rw [← Except.ok.inj h]
      exact ⟨rfl, fun _ h => (nomatch h)⟩
  | cons group groups ih =>
      rw [runGroups] at h
      cases hg : runGroup capacity p registry rules service group with
      | error error =>
          rw [hg] at h
          exact nomatch h
      | ok execution =>
          cases hrest : runGroups capacity p registry rules service groups with
          | error error =>
              rw [hg, hrest] at h
              exact nomatch h
          | ok rest =>
              rw [hg, hrest] at h
              obtain ⟨h1, h2⟩ := ih hrest
              rw [← Except.ok.inj h]
              refine ⟨?_, fun g hgm => ?_⟩
              · rw [List.flatMap_cons, List.flatMap_cons, h1, (runGroup_rules hg).1]
              · rcases List.mem_cons.mp hgm with rfl | hgm'
                · exact ⟨execution, List.mem_cons_self .., hg⟩
                · obtain ⟨e, he, hrun⟩ := h2 g hgm'
                  exact ⟨e, List.mem_cons_of_mem _ he, hrun⟩

/-- Each aggregate rule is executed. -/
theorem runAggregates_rules (p : ProjectId) (rules aggregate : List ConstraintRule)
    (service : WindowService) :
    (runAggregates p rules aggregate service).2.flatMap ConstraintGroupExecution.rules =
      aggregate := by
  induction aggregate generalizing service with
  | nil => rfl
  | cons rule rest ih =>
      show [rule] ++ _ = _
      exact congrArg (rule :: ·) (ih _)

/-! ## Publications -/

/-- Publishing one rule changes its state alone. -/
theorem stateOf_publishRule (update : WindowUpdateResult) (execution : ConstraintGroupExecution)
    (states : Table String CachedConstraintState) (rule : ConstraintRule) (id : String) :
    stateOf id (publishRule update execution states rule) =
      if id = rule.constraintId then
        publishedState update execution rule.constraintId (stateOf rule.constraintId states)
      else stateOf id states := by
  rw [stateOf, publishRule, find_put]
  split
  · rfl
  · rfl

/-- A rule that is not published keeps its state. -/
theorem publishRules_other {update : WindowUpdateResult} {execution : ConstraintGroupExecution}
    {rules : List ConstraintRule} {id : String}
    (h : id ∉ rules.map ConstraintRule.constraintId)
    (states : Table String CachedConstraintState) :
    stateOf id (rules.foldl (publishRule update execution) states) = stateOf id states := by
  induction rules generalizing states with
  | nil => rfl
  | cons rule rest ih =>
      have hne : id ≠ rule.constraintId := fun e => h (by rw [e]; exact List.mem_cons_self ..)
      rw [List.foldl_cons, ih fun hm => h (List.mem_cons_of_mem _ hm), stateOf_publishRule,
        if_neg hne]

/-- A published rule has its new state. -/
theorem publishRules_self {update : WindowUpdateResult} {execution : ConstraintGroupExecution}
    {rules : List ConstraintRule} (hids : (rules.map ConstraintRule.constraintId).Nodup)
    {rule : ConstraintRule} (h : rule ∈ rules) (states : Table String CachedConstraintState) :
    stateOf rule.constraintId (rules.foldl (publishRule update execution) states) =
      publishedState update execution rule.constraintId (stateOf rule.constraintId states) := by
  induction rules generalizing states with
  | nil => exact nomatch h
  | cons first rest ih =>
      obtain ⟨hfirst, hids'⟩ := List.nodup_cons.mp hids
      rw [List.foldl_cons]
      rcases List.mem_cons.mp h with rfl | h'
      · rw [publishRules_other hfirst, stateOf_publishRule, if_pos rfl]
      · have hne : rule.constraintId ≠ first.constraintId := by
          intro e
          refine hfirst ?_
          rw [← e]
          exact List.mem_map_of_mem h'
        rw [ih hids' h', stateOf_publishRule, if_neg hne]

/-- A rule of no execution keeps its state. -/
theorem publishExecutions_other {update : WindowUpdateResult}
    {executions : List ConstraintGroupExecution} {id : String}
    (h : id ∉ (executions.flatMap ConstraintGroupExecution.rules).map
      ConstraintRule.constraintId) (states : Table String CachedConstraintState) :
    stateOf id (publishExecutions update executions states) = stateOf id states := by
  induction executions generalizing states with
  | nil => rfl
  | cons execution rest ih =>
      rw [List.flatMap_cons, List.map_append, List.mem_append, not_or] at h
      refine (ih h.2 _).trans ?_
      exact publishRules_other h.1 states

/-- **The cache entry of a rule** changes once, by its own execution. -/
theorem publishExecutions_state {update : WindowUpdateResult}
    {executions : List ConstraintGroupExecution}
    (hids : ((executions.flatMap ConstraintGroupExecution.rules).map
      ConstraintRule.constraintId).Nodup)
    {execution : ConstraintGroupExecution} (he : execution ∈ executions) {rule : ConstraintRule}
    (hr : rule ∈ execution.rules) (states : Table String CachedConstraintState) :
    stateOf rule.constraintId (publishExecutions update executions states) =
      publishedState update execution rule.constraintId (stateOf rule.constraintId states) := by
  induction executions generalizing states with
  | nil => exact nomatch he
  | cons first rest ih =>
      rw [List.flatMap_cons, List.map_append, List.nodup_append] at hids
      obtain ⟨h1, h2, h3⟩ := hids
      show stateOf rule.constraintId
        (publishExecutions update rest (first.rules.foldl (publishRule update first) states)) = _
      rcases List.mem_cons.mp he with rfl | he'
      · have hother : rule.constraintId ∉
            (rest.flatMap ConstraintGroupExecution.rules).map ConstraintRule.constraintId :=
          fun hm => h3 _ (List.mem_map_of_mem hr) _ hm rfl
        rw [publishExecutions_other hother, publishRules_self h1 hr]
      · have hmem : rule.constraintId ∈
            (rest.flatMap ConstraintGroupExecution.rules).map ConstraintRule.constraintId :=
          List.mem_map_of_mem (List.mem_flatMap.mpr ⟨execution, he', hr⟩)
        have hother : rule.constraintId ∉ first.rules.map ConstraintRule.constraintId :=
          fun hm => h3 _ hm _ hmem rfl
        rw [ih h2 he', publishRules_other hother]

end RuleGroups
