import TimeSeriesEngine.Registry
import TimeSeriesEngine.Library.Transition

/-!
# The external-id index against the instance table

The registry keeps instances under `(project, sequence)` and, for lookups by
external id, sequences under `(project, data source, external id)`.  The code
writes both keys as strings with separators; here the operations are given for
any way of forming keys (`KeyScheme`), so that the same text reads once as the
code (`upsertInstanceConfigs_eq`, `replaceInstanceConfigs_eq`: string keys) and
once with the composite keys as tuples.

With tuples the index is the inverse of the table after every run
(`external_index_inverse`): an upsert releases the pair of the configuration it
replaces before it looks for conflicts.
-/

namespace ExternalIndex

open TseTypes KeyedTable Registry Transition

/-! ## The operations, for any keys -/

/-- How the keys of the two tables are formed, and how the entries of a project
    are recognised. -/
structure KeyScheme (κ ι : Type) where
  instanceKey : ProjectId → SequenceId → κ
  pairKey : ProjectId → String → String → ι
  ownsInstance : ProjectId → κ → Bool
  ownsPair : ProjectId → ι → Bool

/-- The keys of the code. -/
def stringKeys : KeyScheme String String where
  instanceKey := scopedKey
  pairKey := externalKey
  ownsInstance := fun project key => hasPrefix (scopePrefix project) key
  ownsPair := fun project key => hasPrefix (scopePrefix project) key

/-- The composite keys read as tuples. -/
def tupleKeys : KeyScheme (ProjectId × SequenceId) (ProjectId × String × String) where
  instanceKey := fun project sequenceId => (project, sequenceId)
  pairKey := fun project dataSourceId externalId => (project, dataSourceId, externalId)
  ownsInstance := fun project key => decide (key.1 = project)
  ownsPair := fun project key => decide (key.1 = project)

/-- The instance table and the external index. -/
structure Indexes (κ ι : Type) where
  instances : Table κ RuntimeInstanceConfig
  external : Table ι SequenceId

/-- The two operations on instances. -/
inductive InstanceOp where
  | replace (projectId : ProjectId) (items : List RuntimeInstanceConfig)
  | upsert (projectId : ProjectId) (items : List RuntimeInstanceConfig)

section Operations

variable {κ ι : Type} [DecidableEq κ] [DecidableEq ι] (keys : KeyScheme κ ι)

/-- The index without the pair of the configuration an item replaces. -/
def release (project : ProjectId) (item : RuntimeInstanceConfig) (indexes : Indexes κ ι) :
    Table ι SequenceId :=
  match indexes.instances.find (keys.instanceKey project item.sequenceId) with
  | none => indexes.external
  | some existing =>
      let oldKey := keys.pairKey project existing.dataSourceId existing.externalSequenceId
      if indexes.external.find oldKey = some item.sequenceId then erase oldKey indexes.external
      else indexes.external

/-- Store one item on top of an index. -/
def store (project : ProjectId) (item : RuntimeInstanceConfig)
    (instances : Table κ RuntimeInstanceConfig) (external : Table ι SequenceId) : Indexes κ ι where
  instances :=
    put (keys.instanceKey project item.sequenceId) { item with projectId := project } instances
  external :=
    put (keys.pairKey project item.dataSourceId item.externalSequenceId) item.sequenceId external

/-- The loop of an upsert, on both indexes. -/
def upsertItems (project : ProjectId) :
    List RuntimeInstanceConfig → List SequenceId → Indexes κ ι → Except String (Indexes κ ι)
  | [], _, indexes => .ok indexes
  | item :: items, seen, indexes =>
      if item.sequenceId.isEmpty || item.dataSourceId.isEmpty ||
          item.externalSequenceId.isEmpty then
        .error "instance identifiers must not be empty"
      else if item.sequenceId ∈ seen then
        .error ("duplicate sequence_id in incremental update: " ++ item.sequenceId)
      else
        let external := release keys project item indexes
        let newKey := keys.pairKey project item.dataSourceId item.externalSequenceId
        if (external.find newKey).any (fun owner => decide (owner ≠ item.sequenceId)) then
          .error "duplicate external sequence identifier"
        else
          upsertItems project items (item.sequenceId :: seen)
            (store keys project item indexes.instances external)

/-- The loop of a replacement, on both indexes. -/
def replaceItems (project : ProjectId) :
    List RuntimeInstanceConfig → Indexes κ ι → Except String (Indexes κ ι)
  | [], indexes => .ok indexes
  | item :: items, indexes =>
      if item.sequenceId.isEmpty || item.dataSourceId.isEmpty ||
          item.externalSequenceId.isEmpty then
        .error "instance identifiers must not be empty"
      else if (indexes.instances.find (keys.instanceKey project item.sequenceId)).isSome then
        .error ("duplicate sequence_id: " ++ item.sequenceId)
      else
        let key := keys.pairKey project item.dataSourceId item.externalSequenceId
        if (indexes.external.find key).isSome then
          .error "duplicate external sequence identifier"
        else
          replaceItems project items (store keys project item indexes.instances indexes.external)

/-- The new entries of a project with those of all others. -/
def publish (project : ProjectId) (old new : Indexes κ ι) : Indexes κ ι where
  instances := adopt (fun key => !keys.ownsInstance project key) old.instances new.instances
  external := adopt (fun key => !keys.ownsPair project key) old.external new.external

/-- One operation on both tables. -/
def applyOp (indexes : Indexes κ ι) : InstanceOp → Indexes κ ι × OperationResult
  | .upsert projectId items =>
      match upsertItems keys (snapshotProject projectId) items [] indexes with
      | .error message => (indexes, invalidArgument message)
      | .ok updated =>
          (updated, okResult items.length "instance configuration incrementally synchronized")
  | .replace projectId items =>
      match replaceItems keys (snapshotProject projectId) items
          ⟨KeyedTable.empty, KeyedTable.empty⟩ with
      | .error message => (indexes, invalidArgument message)
      | .ok built =>
          (publish keys (snapshotProject projectId) indexes built,
            okResult built.instances.keys.length "instance configuration snapshot replaced")

/-- The tables after a run from an empty registry. -/
def reached (ops : List InstanceOp) : Indexes κ ι :=
  run (fun indexes op => (applyOp keys indexes op).1) ⟨KeyedTable.empty, KeyedTable.empty⟩ ops

end Operations

/-! ## With string keys this is the code -/

/-- The two tables of a registry. -/
def indexesOf (registry : RuntimeConfigRegistry) : Indexes String String :=
  ⟨registry.instanceConfigs, registry.externalSequenceIndex⟩

/-- The registry with the two tables exchanged. -/
def withIndexes (registry : RuntimeConfigRegistry) (indexes : Indexes String String) :
    RuntimeConfigRegistry :=
  { registry with
    instanceConfigs := indexes.instances
    externalSequenceIndex := indexes.external }

theorem stringKeys_instanceKey : stringKeys.instanceKey = scopedKey := rfl

theorem stringKeys_pairKey : stringKeys.pairKey = externalKey := rfl

/-- The two ways of writing a pair of tables. -/
def asRegistryIndexes (indexes : Indexes String String) : InstanceIndexes :=
  ⟨indexes.instances, indexes.external⟩

/-- Releasing an external id, with the keys of the source. -/
theorem release_eq (project : ProjectId) (item : RuntimeInstanceConfig)
    (indexes : Indexes String String) :
    releaseExternal project item (asRegistryIndexes indexes) =
      release stringKeys project item indexes := by
  simp only [releaseExternal, release, asRegistryIndexes, stringKeys_instanceKey,
    stringKeys_pairKey]
  cases indexes.instances.find (scopedKey project item.sequenceId) with
  | none => rfl
  | some existing => rfl

/-- Inserting instances, with the keys of the source. -/
theorem upsertInstanceItems_eq (project : ProjectId) (items : List RuntimeInstanceConfig)
    (seen : List SequenceId) (indexes : Indexes String String) :
    upsertInstanceItems project items seen (asRegistryIndexes indexes) =
      (upsertItems stringKeys project items seen indexes).map asRegistryIndexes := by
  induction items generalizing seen indexes with
  | nil => rfl
  | cons item items ih =>
      have hstore := ih (item.sequenceId :: seen)
        (store stringKeys project item indexes.instances (release stringKeys project item indexes))
      simp only [asRegistryIndexes, store, stringKeys_instanceKey, stringKeys_pairKey] at hstore
      rw [upsertInstanceItems, upsertItems]
      simp only [release_eq, stringKeys_pairKey, store, stringKeys_instanceKey]
      by_cases hblank : (item.sequenceId.isEmpty || item.dataSourceId.isEmpty ||
          item.externalSequenceId.isEmpty) = true
      · rw [if_pos hblank, if_pos hblank]
        rfl
      · rw [if_neg hblank, if_neg hblank]
        by_cases hseen : item.sequenceId ∈ seen
        · rw [if_pos hseen, if_pos hseen]
          rfl
        · rw [if_neg hseen, if_neg hseen]
          by_cases hclash : ((release stringKeys project item indexes).find
              (externalKey project item.dataSourceId item.externalSequenceId)).any
                (fun owner => decide (owner ≠ item.sequenceId)) = true
          · simp only [hclash, if_true]
            rfl
          · simp only [hclash]
            exact hstore

/-- Replacing instances, with the keys of the source. -/
theorem replaceInstanceItems_eq (project : ProjectId) (items : List RuntimeInstanceConfig)
    (indexes : Indexes String String) :
    replaceInstanceItems project items (asRegistryIndexes indexes) =
      (replaceItems stringKeys project items indexes).map asRegistryIndexes := by
  induction items generalizing indexes with
  | nil => rfl
  | cons item items ih =>
      have hstore := ih (store stringKeys project item indexes.instances indexes.external)
      simp only [asRegistryIndexes, store, stringKeys_instanceKey, stringKeys_pairKey] at hstore
      rw [replaceInstanceItems, replaceItems]
      simp only [asRegistryIndexes, stringKeys_pairKey, store, stringKeys_instanceKey]
      by_cases hblank : (item.sequenceId.isEmpty || item.dataSourceId.isEmpty ||
          item.externalSequenceId.isEmpty) = true
      · rw [if_pos hblank, if_pos hblank]
        rfl
      · rw [if_neg hblank, if_neg hblank]
        by_cases hdup : (indexes.instances.find (scopedKey project item.sequenceId)).isSome = true
        · simp only [hdup, if_true]
          rfl
        · simp only [hdup]
          by_cases hclash : (indexes.external.find
              (externalKey project item.dataSourceId item.externalSequenceId)).isSome = true
          · simp only [hclash, if_true]
            rfl
          · simp only [hclash]
            exact hstore

/-- The code's upsert is the operation with string keys. -/
theorem upsertInstanceConfigs_eq (projectId : ProjectId) (items : List RuntimeInstanceConfig)
    (registry : RuntimeConfigRegistry) :
    upsertInstanceConfigs projectId items registry =
      (withIndexes registry (applyOp stringKeys (indexesOf registry) (.upsert projectId items)).1,
        (applyOp stringKeys (indexesOf registry) (.upsert projectId items)).2) := by
  have hitems := upsertInstanceItems_eq (snapshotProject projectId) items [] (indexesOf registry)
  simp only [asRegistryIndexes, indexesOf] at hitems
  simp only [upsertInstanceConfigs, applyOp, indexesOf, hitems]
  cases upsertItems stringKeys (snapshotProject projectId) items []
      ⟨registry.instanceConfigs, registry.externalSequenceIndex⟩ with
  | error message => rfl
  | ok updated => rfl

/-- The code's replacement is the operation with string keys. -/
theorem replaceInstanceConfigs_eq (projectId : ProjectId) (items : List RuntimeInstanceConfig)
    (registry : RuntimeConfigRegistry) :
    replaceInstanceConfigs projectId items registry =
      (withIndexes registry (applyOp stringKeys (indexesOf registry) (.replace projectId items)).1,
        (applyOp stringKeys (indexesOf registry) (.replace projectId items)).2) := by
  have hitems := replaceInstanceItems_eq (snapshotProject projectId) items
    ⟨KeyedTable.empty, KeyedTable.empty⟩
  simp only [asRegistryIndexes] at hitems
  simp only [replaceInstanceConfigs, applyOp, hitems]
  cases replaceItems stringKeys (snapshotProject projectId) items
      ⟨KeyedTable.empty, KeyedTable.empty⟩ with
  | error message => rfl
  | ok built => rfl

/-! ## With tuples the index is the inverse of the table -/

section Tuples

/-- Both tables under composite keys. -/
abbrev TupleIndexes := Indexes (ProjectId × SequenceId) (ProjectId × String × String)

/-- `resolveSequenceId`. -/
def resolve (project : ProjectId) (dataSourceId externalId : String) (indexes : TupleIndexes) :
    Option SequenceId :=
  indexes.external.find (tupleKeys.pairKey project dataSourceId externalId)

/-- `findInstance`. -/
def stored (project : ProjectId) (sequenceId : SequenceId) (indexes : TupleIndexes) :
    Option RuntimeInstanceConfig :=
  indexes.instances.find (tupleKeys.instanceKey project sequenceId)

/-- A sequence is stored in a project with this external id. -/
def Holds (indexes : TupleIndexes) (project : ProjectId) (dataSourceId externalId : String)
    (sequenceId : SequenceId) : Prop :=
  ∃ config, stored project sequenceId indexes = some config ∧
    config.dataSourceId = dataSourceId ∧ config.externalSequenceId = externalId

/-- The index resolves exactly the pairs the stored instances carry. -/
def Inverse (indexes : TupleIndexes) : Prop :=
  ∀ project dataSourceId externalId sequenceId,
    resolve project dataSourceId externalId indexes = some sequenceId ↔
      Holds indexes project dataSourceId externalId sequenceId

/-- Empty tables are inverse to each other. -/
theorem inverse_empty : Inverse ⟨KeyedTable.empty, KeyedTable.empty⟩ := by
  intro project d e owner
  constructor
  · intro h
    cases h
  · rintro ⟨config, hconfig, -, -⟩
    cases hconfig

/-- Releasing drops exactly the pairs of the replaced instance. -/
theorem release_resolves {indexes : TupleIndexes} (h : Inverse indexes) (project : ProjectId)
    (item : RuntimeInstanceConfig) (p : ProjectId) (d e : String) (owner : SequenceId) :
    (release tupleKeys project item indexes).find (p, d, e) = some owner ↔
      (p, owner) ≠ (project, item.sequenceId) ∧ Holds indexes p d e owner := by
  rw [← h p d e owner, release]
  cases hold : indexes.instances.find (tupleKeys.instanceKey project item.sequenceId) with
  | none =>
      refine ⟨fun hfind => ⟨fun hsame => ?_, hfind⟩, fun hfind => hfind.2⟩
      -- a pair of the item would be the pair of a stored instance
      obtain ⟨rfl, rfl⟩ := Prod.mk.inj hsame
      obtain ⟨config, hconfig, -, -⟩ := (h p d e item.sequenceId).mp hfind
      exact Option.some_ne_none config (hconfig.symm.trans hold)
  | some existing =>
      have howned : indexes.external.find
          (tupleKeys.pairKey project existing.dataSourceId existing.externalSequenceId) =
            some item.sequenceId :=
        (h project _ _ item.sequenceId).mpr ⟨existing, hold, rfl, rfl⟩
      simp only [if_pos howned]
      by_cases hkey : (p, d, e) =
          tupleKeys.pairKey project existing.dataSourceId existing.externalSequenceId
      · rw [hkey, find_erase_self]
        constructor
        · intro hnone
          cases hnone
        · rintro ⟨hne, hfind⟩
          obtain ⟨hp, hd, he⟩ : p = project ∧ d = existing.dataSourceId ∧
              e = existing.externalSequenceId := by
            simpa [tupleKeys] using hkey
          subst hp hd he
          have howner : some item.sequenceId = some owner := howned.symm.trans hfind
          exact absurd (by rw [Option.some.inj howner]) hne
      · rw [find_erase_of_ne hkey]
        refine ⟨fun hfind => ⟨fun hsame => ?_, hfind⟩, fun hfind => hfind.2⟩
        -- the item's own pair is the erased one
        obtain ⟨rfl, rfl⟩ := Prod.mk.inj hsame
        obtain ⟨config, hconfig, rfl, rfl⟩ := (h p d e item.sequenceId).mp hfind
        have hsame : config = existing := Option.some.inj (hconfig.symm.trans hold)
        exact hkey (by rw [hsame]; rfl)

/-- One item stored over a released index keeps the tables inverse, when its pair
    belongs to nobody else. -/
theorem store_inverse {indexes : TupleIndexes} (h : Inverse indexes) (project : ProjectId)
    (item : RuntimeInstanceConfig)
    (hfree : ∀ owner, (release tupleKeys project item indexes).find
      (tupleKeys.pairKey project item.dataSourceId item.externalSequenceId) = some owner →
        owner = item.sequenceId) :
    Inverse (store tupleKeys project item indexes.instances
      (release tupleKeys project item indexes)) := by
  intro p d e owner
  have hreleased := release_resolves h project item p d e owner
  simp only [resolve, Holds, stored, store]
  by_cases hself : (p, owner) = (project, item.sequenceId)
  · -- the item itself: its one pair is the new one
    obtain ⟨rfl, rfl⟩ := Prod.mk.inj hself
    by_cases hkey : tupleKeys.pairKey p d e =
        tupleKeys.pairKey p item.dataSourceId item.externalSequenceId
    · obtain ⟨rfl, rfl⟩ : d = item.dataSourceId ∧ e = item.externalSequenceId := by
        simpa [tupleKeys] using hkey
      rw [find_put_self, find_put_self]
      exact ⟨fun _ => ⟨_, rfl, rfl, rfl⟩, fun _ => rfl⟩
    · rw [find_put_of_ne hkey, find_put_self]
      constructor
      · intro hfind
        exact absurd rfl (hreleased.mp hfind).1
      · rintro ⟨config, hconfig, rfl, rfl⟩
        cases hconfig
        exact absurd rfl hkey
  · -- another instance: its pairs are untouched, and none is the new one
    have hinstance : tupleKeys.instanceKey p owner ≠
        tupleKeys.instanceKey project item.sequenceId := hself
    rw [find_put_of_ne hinstance]
    by_cases hkey : tupleKeys.pairKey p d e =
        tupleKeys.pairKey project item.dataSourceId item.externalSequenceId
    · rw [hkey, find_put_self]
      have hp : p = project := congrArg Prod.fst hkey
      constructor
      · intro hsome
        exact absurd (by rw [hp, Option.some.inj hsome]) hself
      · intro hholds
        have hfind := hreleased.mpr ⟨hself, hholds⟩
        have howner := hfree owner (by rw [← hkey]; exact hfind)
        exact absurd (by rw [hp, howner]) hself
    · rw [find_put_of_ne hkey]
      exact hreleased.trans ⟨fun hh => hh.2, fun hh => ⟨hself, hh⟩⟩

/-- Inserting instances keeps the tables inverse. -/
theorem upsertItems_inverse {project : ProjectId} {items : List RuntimeInstanceConfig}
    {seen : List SequenceId} {indexes updated : TupleIndexes} (h : Inverse indexes)
    (hok : upsertItems tupleKeys project items seen indexes = .ok updated) :
    Inverse updated := by
  induction items generalizing seen indexes with
  | nil =>
      cases hok
      exact h
  | cons item items ih =>
      rw [upsertItems] at hok
      by_cases hblank : (item.sequenceId.isEmpty || item.dataSourceId.isEmpty ||
          item.externalSequenceId.isEmpty) = true
      · rw [if_pos hblank] at hok
        cases hok
      rw [if_neg hblank] at hok
      by_cases hseen : item.sequenceId ∈ seen
      · rw [if_pos hseen] at hok
        cases hok
      rw [if_neg hseen] at hok
      by_cases hclash : ((release tupleKeys project item indexes).find
          (tupleKeys.pairKey project item.dataSourceId item.externalSequenceId)).any
            (fun owner => decide (owner ≠ item.sequenceId)) = true
      · simp only [hclash, if_true] at hok
        cases hok
      · simp only [hclash] at hok
        refine ih (store_inverse h project item fun owner howner => ?_) hok
        by_contra hne
        exact hclash (by rw [howner]; simpa using hne)

/-- A snapshot is built inverse, and with entries of its own project only. -/
theorem replaceItems_inverse {project : ProjectId} {items : List RuntimeInstanceConfig}
    {indexes built : TupleIndexes} (h : Inverse indexes)
    (hown : ∀ p owner, p ≠ project → stored p owner indexes = none)
    (hok : replaceItems tupleKeys project items indexes = .ok built) :
    Inverse built ∧ ∀ p owner, p ≠ project → stored p owner built = none := by
  induction items generalizing indexes with
  | nil =>
      cases hok
      exact ⟨h, hown⟩
  | cons item items ih =>
      rw [replaceItems] at hok
      by_cases hblank : (item.sequenceId.isEmpty || item.dataSourceId.isEmpty ||
          item.externalSequenceId.isEmpty) = true
      · rw [if_pos hblank] at hok
        cases hok
      rw [if_neg hblank] at hok
      cases hold : indexes.instances.find (tupleKeys.instanceKey project item.sequenceId) with
      | some existing =>
          simp only [hold, Option.isSome_some, if_true] at hok
          cases hok
      | none =>
          -- nothing to release: the id is new in the snapshot
          have hrelease : release tupleKeys project item indexes = indexes.external := by
            rw [release, hold]
          cases hpair : indexes.external.find
              (tupleKeys.pairKey project item.dataSourceId item.externalSequenceId) with
          | some owner =>
              simp [hold, hpair] at hok
          | none =>
              simp only [hold, hpair, Option.isSome_none, Bool.false_eq_true, if_false] at hok
              have hinverse := store_inverse h project item fun owner howner => by
                rw [hrelease, hpair] at howner
                cases howner
              rw [hrelease] at hinverse
              refine ih hinverse (fun p owner hp => ?_) hok
              have hne : tupleKeys.instanceKey p owner ≠
                  tupleKeys.instanceKey project item.sequenceId :=
                fun hkey => hp (congrArg Prod.fst hkey)
              exact (find_put_of_ne hne _ _).trans (hown p owner hp)

/-- Publishing an inverse snapshot of one project over inverse tables. -/
theorem publish_inverse {project : ProjectId} {old new : TupleIndexes} (hold : Inverse old)
    (hnew : Inverse new) (hown : ∀ p owner, p ≠ project → stored p owner new = none) :
    Inverse (publish tupleKeys project old new) := by
  intro p d e owner
  simp only [resolve, Holds, stored, publish, find_adopt]
  by_cases hp : p = project
  · -- the project's own entries are the snapshot's
    subst hp
    simpa [tupleKeys, resolve, Holds, stored] using hnew p d e owner
  · have hinstance : ∀ s, new.instances.find (tupleKeys.instanceKey p s) = none :=
      fun s => hown p s hp
    have hpair : new.external.find (tupleKeys.pairKey p d e) = none := by
      cases hfind : new.external.find (tupleKeys.pairKey p d e) with
      | none => rfl
      | some s =>
          obtain ⟨config, hconfig, -, -⟩ := (hnew p d e s).mp hfind
          exact absurd (hconfig.symm.trans (hown p s hp)) (Option.some_ne_none config)
    rw [hpair, hinstance owner]
    simpa [tupleKeys, resolve, Holds, stored, hp] using hold p d e owner

/-- Every operation keeps them inverse. -/
theorem applyOp_inverse {indexes : TupleIndexes} (h : Inverse indexes) (op : InstanceOp) :
    Inverse (applyOp tupleKeys indexes op).1 := by
  cases op with
  | upsert projectId items =>
      rw [applyOp]
      cases hitems : upsertItems tupleKeys (snapshotProject projectId) items [] indexes with
      | error message => exact h
      | ok updated => exact upsertItems_inverse h hitems
  | replace projectId items =>
      rw [applyOp]
      cases hitems : replaceItems tupleKeys (snapshotProject projectId) items
          ⟨KeyedTable.empty, KeyedTable.empty⟩ with
      | error message => exact h
      | ok built =>
          obtain ⟨hnew, hown⟩ := replaceItems_inverse inverse_empty (fun _ _ _ => rfl) hitems
          exact publish_inverse h hnew hown

theorem reached_inverse (ops : List InstanceOp) : Inverse (reached tupleKeys ops) :=
  @run_invariant _ _ (fun indexes op => (applyOp tupleKeys indexes op).1) Inverse (fun _ => True)
    (fun _ op _ h => applyOp_inverse h op) _ inverse_empty ops fun _ _ => trivial

end Tuples

/-- A rejected operation changes neither table, however the keys are formed. -/
theorem rejected_unchanged {κ ι : Type} [DecidableEq κ] [DecidableEq ι] (keys : KeyScheme κ ι)
    (indexes : Indexes κ ι) (op : InstanceOp)
    (hrejected : isSuccessful (applyOp keys indexes op).2.code = false) :
    (applyOp keys indexes op).1 = indexes := by
  cases op with
  | upsert projectId items =>
      rw [applyOp] at hrejected ⊢
      cases hitems : upsertItems keys (snapshotProject projectId) items [] indexes with
      | error message => rfl
      | ok updated =>
          rw [hitems] at hrejected
          cases hrejected
  | replace projectId items =>
      rw [applyOp] at hrejected ⊢
      cases hitems : replaceItems keys (snapshotProject projectId) items
          ⟨KeyedTable.empty, KeyedTable.empty⟩ with
      | error message => rfl
      | ok built =>
          rw [hitems] at hrejected
          cases hrejected

/-- **The index is the exact inverse.**  After every run, an external id resolves
    to a sequence exactly when that sequence is stored with it; a rejected
    operation leaves both tables as they were, with tuples and in the code. -/
theorem external_index_inverse (ops : List InstanceOp) :
    (∀ (project : ProjectId) (dataSourceId externalId : String) (sequenceId : SequenceId),
      resolve project dataSourceId externalId (reached tupleKeys ops) = some sequenceId ↔
        ∃ config, stored project sequenceId (reached tupleKeys ops) = some config ∧
          config.dataSourceId = dataSourceId ∧ config.externalSequenceId = externalId) ∧
    (∀ op : InstanceOp,
      isSuccessful (applyOp tupleKeys (reached tupleKeys ops) op).2.code = false →
        (applyOp tupleKeys (reached tupleKeys ops) op).1 = reached tupleKeys ops) ∧
    (∀ (registry : RuntimeConfigRegistry) (projectId : ProjectId)
        (items : List RuntimeInstanceConfig),
      (isSuccessful (upsertInstanceConfigs projectId items registry).2.code = false →
        (upsertInstanceConfigs projectId items registry).1 = registry) ∧
      (isSuccessful (replaceInstanceConfigs projectId items registry).2.code = false →
        (replaceInstanceConfigs projectId items registry).1 = registry)) := by
  refine ⟨reached_inverse ops, fun op => rejected_unchanged tupleKeys _ op,
    fun registry projectId items => ⟨?_, ?_⟩⟩
  · rw [upsertInstanceConfigs_eq]
    intro hrejected
    show withIndexes registry _ = registry
    rw [rejected_unchanged stringKeys _ _ hrejected]
    rfl
  · rw [replaceInstanceConfigs_eq]
    intro hrejected
    show withIndexes registry _ = registry
    rw [rejected_unchanged stringKeys _ _ hrejected]
    rfl

end ExternalIndex
