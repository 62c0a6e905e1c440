import TimeSeriesEngine.Registry
import TimeSeriesEngine.ServiceSlice

/-!
# Slices of the registry

The same for the tables of the registry: an operation or a lookup of an owned
project sees the kept entries only, an operation of an ignored project leaves them
alone.  A replacement selects what it carries over by key prefix, so it needs to
know about all keys of the project and not only about those it writes.
-/

namespace RegistrySlice

open TseTypes KeyedTable ConstraintCheck Registry ServiceSlice

/-- The kept part of the registry. -/
def registryView (slice : Slice) (registry : RuntimeConfigRegistry) : RuntimeConfigRegistry where
  instanceConfigs := restrict slice.keepKey registry.instanceConfigs
  externalSequenceIndex := restrict slice.keepKey registry.externalSequenceIndex
  constraints := restrict slice.keepKey registry.constraints
  derivedSeries := restrict slice.keepKey registry.derivedSeries
  relations := restrict slice.keepKey registry.relations

variable {slice : Slice} {p : ProjectId}

theorem scopedKey_sees (project : ProjectId) (id : String) :
    hasPrefix (scopePrefix project) (scopedKey project id) = true :=
  hasPrefix_append _ _

theorem externalKey_sees (project : ProjectId) (dataSourceId externalId : String) :
    hasPrefix (scopePrefix project) (externalKey project dataSourceId externalId) = true := by
  rw [externalKey, String.append_assoc, String.append_assoc]
  exact hasPrefix_append _ _

/-! ## Lookups -/

/-- The configurations of a project lie in its slice. -/
theorem projectConfigs_slice {ν : Type} (h : slice.Owns p) (table : Table String ν) :
    projectConfigs (effectiveProject p) (restrict slice.keepKey table) =
      projectConfigs (effectiveProject p) table := by
  have hkeys : (table.keys.filter slice.keepKey).filter
      (hasPrefix (scopePrefix (effectiveProject p))) =
        table.keys.filter (hasPrefix (scopePrefix (effectiveProject p))) := by
    rw [List.filter_filter]
    refine List.filter_congr fun key _ => ?_
    cases hkey : hasPrefix (scopePrefix (effectiveProject p)) key with
    | true => rw [h.keys key hkey, Bool.true_and]
    | false => rw [Bool.false_and]
  show ((table.keys.filter slice.keepKey).filter _).filterMap _ = _
  rw [hkeys]
  refine List.filterMap_congr fun key hkey => ?_
  exact find_restrict (h.keys key (List.mem_filter.mp hkey).2) table

theorem findInstance_slice (h : slice.Owns p) (s : SequenceId)
    (registry : RuntimeConfigRegistry) :
    findInstance (effectiveProject p) s (registryView slice registry) =
      findInstance (effectiveProject p) s registry :=
  find_restrict (h.keys _ (scopedKey_sees _ _)) _

theorem resolveSequenceId_slice (h : slice.Owns p) (dataSourceId externalId : String)
    (registry : RuntimeConfigRegistry) :
    resolveSequenceId (effectiveProject p) dataSourceId externalId
        (registryView slice registry) =
      resolveSequenceId (effectiveProject p) dataSourceId externalId registry :=
  find_restrict (h.keys _ (externalKey_sees _ _ _)) _

/-- Rules are looked up in the slice. -/
theorem lookupConstraints_slice (h : slice.Owns p) (ids : List String)
    (registry : RuntimeConfigRegistry) :
    lookupConstraints (effectiveProject p) (registryView slice registry) ids =
      lookupConstraints (effectiveProject p) registry ids := by
  have hfind : ∀ id, (registryView slice registry).constraints.find
      (scopedKey (effectiveProject p) id) =
        registry.constraints.find (scopedKey (effectiveProject p) id) :=
    fun id => find_restrict (h.keys _ (scopedKey_sees _ _)) _
  simp only [lookupConstraints, hfind]

theorem allEnabledConstraints_slice (h : slice.Owns p) (registry : RuntimeConfigRegistry) :
    allEnabledConstraints (effectiveProject p) (registryView slice registry) =
      allEnabledConstraints (effectiveProject p) registry := by
  simp only [allEnabledConstraints, registryView, projectConfigs_slice h]

theorem allDerivedSeries_slice (h : slice.Owns p) (registry : RuntimeConfigRegistry) :
    allDerivedSeries (effectiveProject p) (registryView slice registry) =
      allDerivedSeries (effectiveProject p) registry := by
  simp only [allDerivedSeries, registryView, projectConfigs_slice h]

theorem findRelation_slice (h : slice.Owns p) (relationId : String)
    (registry : RuntimeConfigRegistry) :
    findRelation (effectiveProject p) relationId (registryView slice registry) =
      findRelation (effectiveProject p) relationId registry :=
  find_restrict (h.keys _ (scopedKey_sees _ _)) _

/-! ## Publishing a snapshot -/

/-- All keys of a table start with the project's prefix. -/
def Under {ν : Type} (project : ProjectId) (table : Table String ν) : Prop :=
  ∀ key ∈ table.keys, hasPrefix (scopePrefix project) key = true

theorem under_empty {ν : Type} (project : ProjectId) :
    Under project (KeyedTable.empty : Table String ν) :=
  fun _ hkey => by cases hkey

/-- Writing under a key of the project. -/
theorem Under.put {ν : Type} {project : ProjectId} {table : Table String ν}
    (h : Under project table) {key : String} (hkey : hasPrefix (scopePrefix project) key = true)
    (value : ν) : Under project (KeyedTable.put key value table) := by
  intro k hk
  rcases (mem_keys_put key k value table).mp hk with rfl | hold
  · exact hkey
  · exact h k hold

theorem carryOver_slice {ν : Type} (h : slice.Owns p) (old : Table String ν)
    {new : Table String ν} (hnew : Under (effectiveProject p) new) :
    carryOver (effectiveProject p) (restrict slice.keepKey old) new =
      restrict slice.keepKey (carryOver (effectiveProject p) old new) := by
  rw [carryOver, carryOver, restrict_adopt,
    restrict_of_all fun key hkey => h.keys key (hnew key hkey)]

/-- Carrying over outside leaves the slice. -/
theorem carryOver_ignored {ν : Type} (h : slice.Ignores p) (old : Table String ν)
    {new : Table String ν} (hnew : Under (effectiveProject p) new) :
    restrict slice.keepKey (carryOver (effectiveProject p) old new) =
      restrict slice.keepKey old := by
  rw [carryOver, restrict_adopt, restrict_of_none fun key hkey => h.keys key (hnew key hkey)]
  refine adopt_of_all fun key hkey => ?_
  -- a kept key is none of the project's
  have hkept : slice.keepKey key = true := (List.mem_filter.mp hkey).2
  cases hpre : hasPrefix (scopePrefix (effectiveProject p)) key with
  | false => rfl
  | true => exact absurd ((h.keys key hpre).symm.trans hkept) Bool.false_ne_true

/-! ## Instances -/

/-- The part of both indexes that a slice shows. -/
def sliceIndexes (slice : Slice) (indexes : InstanceIndexes) : InstanceIndexes :=
  ⟨restrict slice.keepKey indexes.instances, restrict slice.keepKey indexes.external⟩

/-- Releasing an id inside the slice. -/
theorem releaseExternal_slice (h : slice.Owns p) (item : RuntimeInstanceConfig)
    (indexes : InstanceIndexes) :
    releaseExternal (effectiveProject p) item (sliceIndexes slice indexes) =
      restrict slice.keepKey (releaseExternal (effectiveProject p) item indexes) := by
  simp only [releaseExternal, sliceIndexes, find_restrict (h.keys _ (scopedKey_sees _ _))]
  cases indexes.instances.find (scopedKey (effectiveProject p) item.sequenceId) with
  | none => rfl
  | some existing =>
      have hkey := h.keys _ (externalKey_sees (effectiveProject p) existing.dataSourceId
        existing.externalSequenceId)
      simp only [find_restrict hkey]
      split
      · exact (restrict_erase hkey _).symm
      · rfl

/-- Releasing an id outside leaves the slice. -/
theorem releaseExternal_ignored (h : slice.Ignores p) (item : RuntimeInstanceConfig)
    (indexes : InstanceIndexes) :
    restrict slice.keepKey (releaseExternal (effectiveProject p) item indexes) =
      restrict slice.keepKey indexes.external := by
  rw [releaseExternal]
  cases indexes.instances.find (scopedKey (effectiveProject p) item.sequenceId) with
  | none => rfl
  | some existing =>
      simp only
      split
      · exact restrict_erase_of_not (h.keys _ (externalKey_sees _ _ _)) _
      · rfl

/-- Inserting instances inside the slice. -/
theorem upsertInstanceItems_slice (h : slice.Owns p) (items : List RuntimeInstanceConfig)
    (seen : List SequenceId) (indexes : InstanceIndexes) :
    upsertInstanceItems (effectiveProject p) items seen (sliceIndexes slice indexes) =
      (upsertInstanceItems (effectiveProject p) items seen indexes).map (sliceIndexes slice) := by
  induction items generalizing seen indexes with
  | nil => rfl
  | cons item items ih =>
      have hinstance := h.keys _ (scopedKey_sees (effectiveProject p) item.sequenceId)
      have hpair := h.keys _ (externalKey_sees (effectiveProject p) item.dataSourceId
        item.externalSequenceId)
      rw [upsertInstanceItems, upsertInstanceItems]
      simp only [releaseExternal_slice h, find_restrict hpair]
      by_cases hblank : (item.sequenceId.isEmpty || item.dataSourceId.isEmpty ||
          item.externalSequenceId.isEmpty) = true
      · rw [if_pos hblank, if_pos hblank]
        rfl
      rw [if_neg hblank, if_neg hblank]
      by_cases hseen : item.sequenceId ∈ seen
      · rw [if_pos hseen, if_pos hseen]
        rfl
      rw [if_neg hseen, if_neg hseen]
      by_cases hclash : ((releaseExternal (effectiveProject p) item indexes).find
          (externalKey (effectiveProject p) item.dataSourceId item.externalSequenceId)).any
            (fun owner => decide (owner ≠ item.sequenceId)) = true
      · rw [if_pos hclash, if_pos hclash]
        rfl
      · rw [if_neg hclash, if_neg hclash, ← ih]
        simp only [sliceIndexes, restrict_put hinstance, restrict_put hpair]

/-- Inserting instances outside leaves the slice. -/
theorem upsertInstanceItems_ignored (h : slice.Ignores p) {items : List RuntimeInstanceConfig}
    {seen : List SequenceId} {indexes out : InstanceIndexes}
    (hok : upsertInstanceItems (effectiveProject p) items seen indexes = .ok out) :
    sliceIndexes slice out = sliceIndexes slice indexes := by
  induction items generalizing seen indexes with
  | nil =>
      cases hok
      rfl
  | cons item items ih =>
      rw [upsertInstanceItems] at hok
      split at hok
      · cases hok
      split at hok
      · cases hok
      simp only at hok
      split at hok
      · cases hok
      rw [ih hok]
      simp only [sliceIndexes, restrict_put_of_not (h.keys _ (scopedKey_sees _ _)),
        restrict_put_of_not (h.keys _ (externalKey_sees _ _ _)), releaseExternal_ignored h]

/-- A replacement holds keys of its project. -/
theorem replaceInstanceItems_under {project : ProjectId} {items : List RuntimeInstanceConfig}
    {indexes out : InstanceIndexes} (hinstances : Under project indexes.instances)
    (hexternal : Under project indexes.external)
    (hok : replaceInstanceItems project items indexes = .ok out) :
    Under project out.instances ∧ Under project out.external := by
  induction items generalizing indexes with
  | nil =>
      cases hok
      exact ⟨hinstances, hexternal⟩
  | cons item items ih =>
      rw [replaceInstanceItems] at hok
      split at hok
      · cases hok
      split at hok
      · cases hok
      simp only at hok
      split at hok
      · cases hok
      exact ih (hinstances.put (scopedKey_sees _ _) _) (hexternal.put (externalKey_sees _ _ _) _)
        hok

/-- The request to insert instances, inside. -/
theorem upsertInstanceConfigs_slice (h : slice.Owns p) (items : List RuntimeInstanceConfig)
    (registry : RuntimeConfigRegistry) :
    upsertInstanceConfigs p items (registryView slice registry) =
      (registryView slice (upsertInstanceConfigs p items registry).1,
        (upsertInstanceConfigs p items registry).2) := by
  have hitems := upsertInstanceItems_slice h items []
    ⟨registry.instanceConfigs, registry.externalSequenceIndex⟩
  simp only [sliceIndexes] at hitems
  simp only [upsertInstanceConfigs, registryView, snapshotProject, hitems]
  cases upsertInstanceItems (effectiveProject p) items []
      ⟨registry.instanceConfigs, registry.externalSequenceIndex⟩ with
  | error message => rfl
  | ok indexes => rfl

/-- The request to insert instances, outside. -/
theorem upsertInstanceConfigs_ignored (h : slice.Ignores p) (items : List RuntimeInstanceConfig)
    (registry : RuntimeConfigRegistry) :
    registryView slice (upsertInstanceConfigs p items registry).1 =
      registryView slice registry := by
  simp only [upsertInstanceConfigs, snapshotProject]
  cases hok : upsertInstanceItems (effectiveProject p) items []
      ⟨registry.instanceConfigs, registry.externalSequenceIndex⟩ with
  | error message => rfl
  | ok indexes =>
      have hslice := upsertInstanceItems_ignored h hok
      simp only [sliceIndexes, InstanceIndexes.mk.injEq] at hslice
      simp only [registryView, hslice.1, hslice.2]

/-- The request to replace instances, inside. -/
theorem replaceInstanceConfigs_slice (h : slice.Owns p) (items : List RuntimeInstanceConfig)
    (registry : RuntimeConfigRegistry) :
    replaceInstanceConfigs p items (registryView slice registry) =
      (registryView slice (replaceInstanceConfigs p items registry).1,
        (replaceInstanceConfigs p items registry).2) := by
  simp only [replaceInstanceConfigs, registryView, snapshotProject]
  cases hok : replaceInstanceItems (effectiveProject p) items
      ⟨KeyedTable.empty, KeyedTable.empty⟩ with
  | error message => rfl
  | ok indexes =>
      obtain ⟨hinstances, hexternal⟩ :=
        replaceInstanceItems_under (under_empty _) (under_empty _) hok
      simp only [carryOver_slice h _ hinstances, carryOver_slice h _ hexternal]

/-- The request to replace instances, outside. -/
theorem replaceInstanceConfigs_ignored (h : slice.Ignores p) (items : List RuntimeInstanceConfig)
    (registry : RuntimeConfigRegistry) :
    registryView slice (replaceInstanceConfigs p items registry).1 =
      registryView slice registry := by
  simp only [replaceInstanceConfigs, snapshotProject]
  cases hok : replaceInstanceItems (effectiveProject p) items
      ⟨KeyedTable.empty, KeyedTable.empty⟩ with
  | error message => rfl
  | ok indexes =>
      obtain ⟨hinstances, hexternal⟩ :=
        replaceInstanceItems_under (under_empty _) (under_empty _) hok
      simp only [registryView, carryOver_ignored h _ hinstances, carryOver_ignored h _ hexternal]

/-! ## Constraints -/

theorem unknownSequence_slice (h : slice.Owns p) (rule : ConstraintRule)
    (registry : RuntimeConfigRegistry) :
    unknownSequence (effectiveProject p) rule (registryView slice registry) =
      unknownSequence (effectiveProject p) rule registry := by
  simp only [unknownSequence, findInstance_slice h]

/-- Inserting rules inside the slice. -/
theorem upsertConstraintItems_slice (h : slice.Owns p) (registry : RuntimeConfigRegistry)
    (items : List RuntimeConstraintConfig) (seen : List String)
    (constraints : Table String RuntimeConstraintConfig) :
    upsertConstraintItems (effectiveProject p) (registryView slice registry) items seen
        (restrict slice.keepKey constraints) =
      (upsertConstraintItems (effectiveProject p) registry items seen constraints).map
        (restrict slice.keepKey) := by
  induction items generalizing seen constraints with
  | nil => rfl
  | cons item items ih =>
      have hkey := h.keys _ (scopedKey_sees (effectiveProject p) item.rule.constraintId)
      rw [upsertConstraintItems, upsertConstraintItems]
      simp only [unknownSequence_slice h, ← restrict_put hkey, ih]
      by_cases hseen : item.rule.constraintId ∈ seen
      · rw [if_pos hseen, if_pos hseen]
        rfl
      rw [if_neg hseen, if_neg hseen]
      cases validateConstraintRule item.rule with
      | error error => rfl
      | ok properties =>
          cases unknownSequence (effectiveProject p) item.rule registry with
          | some error => rfl
          | none => rfl

/-- Inserting rules outside leaves the slice. -/
theorem upsertConstraintItems_ignored (h : slice.Ignores p) {registry : RuntimeConfigRegistry}
    {items : List RuntimeConstraintConfig} {seen : List String}
    {constraints out : Table String RuntimeConstraintConfig}
    (hok : upsertConstraintItems (effectiveProject p) registry items seen constraints = .ok out) :
    restrict slice.keepKey out = restrict slice.keepKey constraints := by
  induction items generalizing seen constraints with
  | nil =>
      cases hok
      rfl
  | cons item items ih =>
      rw [upsertConstraintItems] at hok
      split at hok
      · cases hok
      cases hvalid : validateConstraintRule item.rule with
      | error error =>
          rw [hvalid] at hok
          cases hok
      | ok properties =>
          rw [hvalid] at hok
          cases hknown : unknownSequence (effectiveProject p) item.rule registry with
          | some error =>
              rw [hknown] at hok
              cases hok
          | none =>
              rw [hknown] at hok
              exact (ih hok).trans (restrict_put_of_not (h.keys _ (scopedKey_sees _ _)) _ _)

/-- Replacing rules inside the slice. -/
theorem replaceConstraintItems_slice (h : slice.Owns p) (registry : RuntimeConfigRegistry)
    (items : List RuntimeConstraintConfig) (constraints : Table String RuntimeConstraintConfig) :
    replaceConstraintItems (effectiveProject p) (registryView slice registry) items constraints =
      replaceConstraintItems (effectiveProject p) registry items constraints := by
  induction items generalizing constraints with
  | nil => rfl
  | cons item items ih =>
      rw [replaceConstraintItems, replaceConstraintItems]
      simp only [unknownSequence_slice h, ih]

/-- A replacement holds keys of its project. -/
theorem replaceConstraintItems_under {project : ProjectId} {registry : RuntimeConfigRegistry}
    {items : List RuntimeConstraintConfig} {constraints out : Table String RuntimeConstraintConfig}
    (hunder : Under project constraints)
    (hok : replaceConstraintItems project registry items constraints = .ok out) :
    Under project out := by
  induction items generalizing constraints with
  | nil =>
      cases hok
      exact hunder
  | cons item items ih =>
      rw [replaceConstraintItems] at hok
      cases hvalid : validateConstraintRule item.rule with
      | error error =>
          rw [hvalid] at hok
          cases hok
      | ok properties =>
          rw [hvalid] at hok
          cases hknown : unknownSequence project item.rule registry with
          | some error =>
              rw [hknown] at hok
              cases hok
          | none =>
              rw [hknown] at hok
              simp only at hok
              split at hok
              · cases hok
              exact ih (hunder.put (scopedKey_sees _ _) _) hok

/-- The request to insert rules, inside. -/
theorem upsertConstraints_slice (h : slice.Owns p) (items : List RuntimeConstraintConfig)
    (registry : RuntimeConfigRegistry) :
    upsertConstraints p items (registryView slice registry) =
      (registryView slice (upsertConstraints p items registry).1,
        (upsertConstraints p items registry).2) := by
  have hitems := upsertConstraintItems_slice h registry items [] registry.constraints
  simp only [upsertConstraints, snapshotProject]
  rw [show (registryView slice registry).constraints =
    restrict slice.keepKey registry.constraints from rfl, hitems]
  cases upsertConstraintItems (effectiveProject p) registry items [] registry.constraints with
  | error message => rfl
  | ok constraints => rfl

/-- The request to insert rules, outside. -/
theorem upsertConstraints_ignored (h : slice.Ignores p) (items : List RuntimeConstraintConfig)
    (registry : RuntimeConfigRegistry) :
    registryView slice (upsertConstraints p items registry).1 = registryView slice registry := by
  simp only [upsertConstraints, snapshotProject]
  cases hok : upsertConstraintItems (effectiveProject p) registry items []
      registry.constraints with
  | error message => rfl
  | ok constraints => simp only [registryView, upsertConstraintItems_ignored h hok]

/-- The request to replace rules, inside. -/
theorem replaceConstraints_slice (h : slice.Owns p) (items : List RuntimeConstraintConfig)
    (registry : RuntimeConfigRegistry) :
    replaceConstraints p items (registryView slice registry) =
      (registryView slice (replaceConstraints p items registry).1,
        (replaceConstraints p items registry).2) := by
  simp only [replaceConstraints, snapshotProject, replaceConstraintItems_slice h]
  cases hok : replaceConstraintItems (effectiveProject p) registry items KeyedTable.empty with
  | error message => rfl
  | ok constraints =>
      simp only [registryView,
        carryOver_slice h _ (replaceConstraintItems_under (under_empty _) hok)]

/-- The request to replace rules, outside. -/
theorem replaceConstraints_ignored (h : slice.Ignores p) (items : List RuntimeConstraintConfig)
    (registry : RuntimeConfigRegistry) :
    registryView slice (replaceConstraints p items registry).1 = registryView slice registry := by
  simp only [replaceConstraints, snapshotProject]
  cases hok : replaceConstraintItems (effectiveProject p) registry items KeyedTable.empty with
  | error message => rfl
  | ok constraints =>
      simp only [registryView,
        carryOver_ignored h _ (replaceConstraintItems_under (under_empty _) hok)]

/-! ## Derived formulas -/

/-- Inserting derived series inside the slice. -/
theorem upsertDerivedItems_slice (h : slice.Owns p) (instances : List RuntimeInstanceConfig)
    (items : List RuntimeDerivedSeriesConfig) (seen : List SequenceId)
    (derivedSeries : Table String RuntimeDerivedSeriesConfig) :
    upsertDerivedItems (effectiveProject p) instances items seen
        (restrict slice.keepKey derivedSeries) =
      (upsertDerivedItems (effectiveProject p) instances items seen derivedSeries).map
        (restrict slice.keepKey) := by
  induction items generalizing seen derivedSeries with
  | nil => rfl
  | cons item items ih =>
      have hkey := h.keys _ (scopedKey_sees (effectiveProject p) item.derivedSequenceId)
      rw [upsertDerivedItems, upsertDerivedItems]
      simp only [← restrict_put hkey, ih]
      by_cases hseen : item.derivedSequenceId ∈ seen
      · rw [if_pos hseen, if_pos hseen]
        rfl
      rw [if_neg hseen, if_neg hseen]
      cases validateDerivedConfig instances item with
      | some error => rfl
      | none => rfl

/-- Inserting derived series outside leaves the slice. -/
theorem upsertDerivedItems_ignored (h : slice.Ignores p) {instances : List RuntimeInstanceConfig}
    {items : List RuntimeDerivedSeriesConfig} {seen : List SequenceId}
    {derivedSeries out : Table String RuntimeDerivedSeriesConfig}
    (hok : upsertDerivedItems (effectiveProject p) instances items seen derivedSeries = .ok out) :
    restrict slice.keepKey out = restrict slice.keepKey derivedSeries := by
  induction items generalizing seen derivedSeries with
  | nil =>
      cases hok
      rfl
  | cons item items ih =>
      rw [upsertDerivedItems] at hok
      split at hok
      · cases hok
      cases hvalid : validateDerivedConfig instances item with
      | some error =>
          rw [hvalid] at hok
          cases hok
      | none =>
          rw [hvalid] at hok
          exact (ih hok).trans (restrict_put_of_not (h.keys _ (scopedKey_sees _ _)) _ _)

/-- The request to insert derived series, inside. -/
theorem upsertDerivedSeriesConfigs_slice (h : slice.Owns p)
    (items : List RuntimeDerivedSeriesConfig) (registry : RuntimeConfigRegistry) :
    upsertDerivedSeriesConfigs p items (registryView slice registry) =
      (registryView slice (upsertDerivedSeriesConfigs p items registry).1,
        (upsertDerivedSeriesConfigs p items registry).2) := by
  simp only [upsertDerivedSeriesConfigs, snapshotProject, registryView, projectConfigs_slice h,
    upsertDerivedItems_slice h]
  cases upsertDerivedItems (effectiveProject p)
      (projectConfigs (effectiveProject p) registry.instanceConfigs) items []
      registry.derivedSeries with
  | error message => rfl
  | ok derivedSeries => rfl

/-- The request to insert derived series, outside. -/
theorem upsertDerivedSeriesConfigs_ignored (h : slice.Ignores p)
    (items : List RuntimeDerivedSeriesConfig) (registry : RuntimeConfigRegistry) :
    registryView slice (upsertDerivedSeriesConfigs p items registry).1 =
      registryView slice registry := by
  simp only [upsertDerivedSeriesConfigs, snapshotProject]
  cases hok : upsertDerivedItems (effectiveProject p)
      (projectConfigs (effectiveProject p) registry.instanceConfigs) items []
      registry.derivedSeries with
  | error message => rfl
  | ok derivedSeries => simp only [registryView, upsertDerivedItems_ignored h hok]

/-! ## Relations -/

/-- Inserting relations inside the slice. -/
theorem upsertRelationItems_slice (h : slice.Owns p) (items : List RuntimeRelationConfig)
    (seen : List String) (relations : Table String RuntimeRelationConfig) :
    upsertRelationItems (effectiveProject p) items seen (restrict slice.keepKey relations) =
      (upsertRelationItems (effectiveProject p) items seen relations).map
        (restrict slice.keepKey) := by
  induction items generalizing seen relations with
  | nil => rfl
  | cons item items ih =>
      have hkey := h.keys _ (scopedKey_sees (effectiveProject p) item.relationId)
      rw [upsertRelationItems, upsertRelationItems]
      simp only [← restrict_put hkey, ih]
      by_cases hblank : (item.relationId.isEmpty || item.targetSequenceId.isEmpty ||
          item.sources.isEmpty) = true
      · rw [if_pos hblank, if_pos hblank]
        rfl
      rw [if_neg hblank, if_neg hblank]
      by_cases hseen : item.relationId ∈ seen
      · rw [if_pos hseen, if_pos hseen]
        rfl
      rw [if_neg hseen, if_neg hseen]
      by_cases hconfidence : (!isFinite item.confidence) = true
      · rw [if_pos hconfidence, if_pos hconfidence]
        rfl
      rw [if_neg hconfidence, if_neg hconfidence]
      cases validateRelationSources item.sources [] with
      | some error => rfl
      | none => rfl

/-- Inserting relations outside leaves the slice. -/
theorem upsertRelationItems_ignored (h : slice.Ignores p) {items : List RuntimeRelationConfig}
    {seen : List String} {relations out : Table String RuntimeRelationConfig}
    (hok : upsertRelationItems (effectiveProject p) items seen relations = .ok out) :
    restrict slice.keepKey out = restrict slice.keepKey relations := by
  induction items generalizing seen relations with
  | nil =>
      cases hok
      rfl
  | cons item items ih =>
      rw [upsertRelationItems] at hok
      split at hok
      · cases hok
      split at hok
      · cases hok
      split at hok
      · cases hok
      cases hsources : validateRelationSources item.sources [] with
      | some error =>
          rw [hsources] at hok
          cases hok
      | none =>
          rw [hsources] at hok
          exact (ih hok).trans (restrict_put_of_not (h.keys _ (scopedKey_sees _ _)) _ _)

/-- A replacement holds keys of its project. -/
theorem replaceRelationItems_under {project : ProjectId} {items : List RuntimeRelationConfig}
    {relations out : Table String RuntimeRelationConfig} (hunder : Under project relations)
    (hok : replaceRelationItems project items relations = .ok out) : Under project out := by
  induction items generalizing relations with
  | nil =>
      cases hok
      exact hunder
  | cons item items ih =>
      rw [replaceRelationItems] at hok
      split at hok
      · cases hok
      split at hok
      · cases hok
      cases hsources : validateRelationSources item.sources [] with
      | some error =>
          rw [hsources] at hok
          cases hok
      | none =>
          rw [hsources] at hok
          simp only at hok
          split at hok
          · cases hok
          exact ih (hunder.put (scopedKey_sees _ _) _) hok

/-- The request to insert relations, inside. -/
theorem upsertRelations_slice (h : slice.Owns p) (items : List RuntimeRelationConfig)
    (registry : RuntimeConfigRegistry) :
    upsertRelations p items (registryView slice registry) =
      (registryView slice (upsertRelations p items registry).1,
        (upsertRelations p items registry).2) := by
  simp only [upsertRelations, snapshotProject, registryView, upsertRelationItems_slice h]
  cases upsertRelationItems (effectiveProject p) items [] registry.relations with
  | error message => rfl
  | ok relations => rfl

/-- The request to insert relations, outside. -/
theorem upsertRelations_ignored (h : slice.Ignores p) (items : List RuntimeRelationConfig)
    (registry : RuntimeConfigRegistry) :
    registryView slice (upsertRelations p items registry).1 = registryView slice registry := by
  simp only [upsertRelations, snapshotProject]
  cases hok : upsertRelationItems (effectiveProject p) items [] registry.relations with
  | error message => rfl
  | ok relations => simp only [registryView, upsertRelationItems_ignored h hok]

/-- The request to replace relations, inside. -/
theorem replaceRelations_slice (h : slice.Owns p) (items : List RuntimeRelationConfig)
    (registry : RuntimeConfigRegistry) :
    replaceRelations p items (registryView slice registry) =
      (registryView slice (replaceRelations p items registry).1,
        (replaceRelations p items registry).2) := by
  simp only [replaceRelations, snapshotProject]
  cases hok : replaceRelationItems (effectiveProject p) items KeyedTable.empty with
  | error message => rfl
  | ok relations =>
      simp only [registryView,
        carryOver_slice h _ (replaceRelationItems_under (under_empty _) hok)]

/-- The request to replace relations, outside. -/
theorem replaceRelations_ignored (h : slice.Ignores p) (items : List RuntimeRelationConfig)
    (registry : RuntimeConfigRegistry) :
    registryView slice (replaceRelations p items registry).1 = registryView slice registry := by
  simp only [replaceRelations, snapshotProject]
  cases hok : replaceRelationItems (effectiveProject p) items KeyedTable.empty with
  | error message => rfl
  | ok relations =>
      simp only [registryView,
        carryOver_ignored h _ (replaceRelationItems_under (under_empty _) hok)]

end RegistrySlice
