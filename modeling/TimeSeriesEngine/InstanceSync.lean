import TimeSeriesEngine.RegistryReferences
import TimeSeriesEngine.RegistrySlice

/-!
# What an instance snapshot depends on

`upsertInstanceConfigs` stores its items one after the other and looks for conflicts in
the index as it is then.  An item that takes the external id of another item is refused
if it comes first and stored if it comes second.

* `Indexed` — after every run the index of a project is the inverse of its instances;
* `upsertInstanceItems_free` — no item takes what another holds: accepted in every order;
* `outcome_only_iff` — so the outcome alone decides exactly when there is a conflict in
  the end, or nothing is taken over.
-/

namespace InstanceSync

open TseTypes KeyedTable Registry RegistryReferences RegistrySlice Transition

/-! ## Snapshots and their outcome -/

/-- The key of a configuration in the external index. -/
def pairKey (project : ProjectId) (config : RuntimeInstanceConfig) : String :=
  externalKey project config.dataSourceId config.externalSequenceId

/-- Identifiers that are not empty, and every sequence once. -/
structure Snapshot (items : List RuntimeInstanceConfig) : Prop where
  named : ∀ item ∈ items,
    item.sequenceId ≠ "" ∧ item.dataSourceId ≠ "" ∧ item.externalSequenceId ≠ ""
  distinct : (items.map RuntimeInstanceConfig.sequenceId).Nodup

/-- The instance table with all items applied. -/
def withItems (project : ProjectId) (items : List RuntimeInstanceConfig)
    (instances : Table String RuntimeInstanceConfig) : Table String RuntimeInstanceConfig :=
  items.foldl (fun instances item =>
    put (scopedKey project item.sequenceId) { item with projectId := project } instances) instances

/-- Two instances of the project with one `(data_source_id, external_sequence_id)`. -/
def SharesPair (project : ProjectId) (instances : Table String RuntimeInstanceConfig) : Prop :=
  ∃ s s' config config', s ≠ s' ∧ instances.find (scopedKey project s) = some config ∧
    instances.find (scopedKey project s') = some config' ∧
    config.dataSourceId = config'.dataSourceId ∧
    config.externalSequenceId = config'.externalSequenceId

/-- Equal registries, with the tables of the instances compared entry by entry. -/
structure SameRegistry (left right : RuntimeConfigRegistry) : Prop where
  instances : ∀ key, left.instanceConfigs.find key = right.instanceConfigs.find key
  external : ∀ key, left.externalSequenceIndex.find key = right.externalSequenceIndex.find key
  constraints : left.constraints = right.constraints
  derived : left.derivedSeries = right.derivedSeries
  relations : left.relations = right.relations

/-- The result depends on the outcome alone. -/
structure OutcomeOnly (projectId : ProjectId) (items : List RuntimeInstanceConfig)
    (registry : RuntimeConfigRegistry) : Prop where
  decided : isSuccessful (upsertInstanceConfigs projectId items registry).2.code = true ↔
    ¬ SharesPair (snapshotProject projectId)
      (withItems (snapshotProject projectId) items registry.instanceConfigs)
  permuted : ∀ items' : List RuntimeInstanceConfig, items'.Perm items →
    isSuccessful (upsertInstanceConfigs projectId items' registry).2.code =
        isSuccessful (upsertInstanceConfigs projectId items registry).2.code ∧
      SameRegistry (upsertInstanceConfigs projectId items' registry).1
        (upsertInstanceConfigs projectId items registry).1

/-- Two instances of the project with one key in the external index. -/
def SharesKey (project : ProjectId) (instances : Table String RuntimeInstanceConfig) : Prop :=
  ∃ s s' config config', s ≠ s' ∧ instances.find (scopedKey project s) = some config ∧
    instances.find (scopedKey project s') = some config' ∧
    pairKey project config = pairKey project config'

/-- An item takes the key another item's instance holds. -/
def TakesHeld (project : ProjectId) (items : List RuntimeInstanceConfig)
    (instances : Table String RuntimeInstanceConfig) : Prop :=
  ∃ item ∈ items, ∃ other ∈ items, other.sequenceId ≠ item.sequenceId ∧
    ∃ held, instances.find (scopedKey project other.sequenceId) = some held ∧
      pairKey project held = pairKey project item

/-! ## Keys -/

/-- The keys of a project. -/
def Sees (project : ProjectId) (key : String) : Prop := hasPrefix (scopePrefix project) key = true

theorem sees_scoped (project : ProjectId) (s : SequenceId) : Sees project (scopedKey project s) :=
  scopedKey_sees project s

theorem sees_pair (project : ProjectId) (config : RuntimeInstanceConfig) :
    Sees project (pairKey project config) :=
  externalKey_sees project config.dataSourceId config.externalSequenceId

/-- Projects that are apart see different keys. -/
theorem apart_unseen {p q : ProjectId} (h : Apart p q) (hne : p ≠ q) {key : String}
    (hp : Sees p key) : ¬ Sees q key := by
  intro hq
  rcases h with heq | ⟨hpq, hqp⟩
  · exact hne heq
  rcases hasPrefix_or_of_both hp hq with hle | hle
  · exact Bool.false_ne_true (hpq.symm.trans hle)
  · exact Bool.false_ne_true (hqp.symm.trans hle)

/-! ## The index against the instances -/

section Index

variable {project : ProjectId} {item : RuntimeInstanceConfig} {indexes out : InstanceIndexes}

/-- Releasing an id adds none. -/
theorem releaseExternal_some {key : String} {owner : SequenceId}
    (h : (releaseExternal project item indexes).find key = some owner) :
    indexes.external.find key = some owner := by
  rw [releaseExternal] at h
  split at h
  · exact h
  rename_i existing _
  simp only at h
  split at h
  · by_cases hkey : key = externalKey project existing.dataSourceId existing.externalSequenceId
    · rw [hkey, find_erase_self] at h
      cases h
    · rwa [find_erase_of_ne hkey] at h
  · exact h

/-- What another sequence holds stays. -/
theorem releaseExternal_other {key : String} {owner : SequenceId}
    (h : indexes.external.find key = some owner) (hne : owner ≠ item.sequenceId) :
    (releaseExternal project item indexes).find key = some owner := by
  rw [releaseExternal]
  split
  · exact h
  rename_i existing _
  simp only
  split
  · rename_i hown
    have hkey : key ≠ externalKey project existing.dataSourceId existing.externalSequenceId := by
      intro e
      rw [← e, h] at hown
      exact hne (Option.some.inj hown)
    rwa [find_erase_of_ne hkey]
  · exact h

/-- Keys of other projects are left alone. -/
theorem releaseExternal_unseen {key : String} (hkey : ¬ Sees project key) :
    (releaseExternal project item indexes).find key = indexes.external.find key := by
  rw [releaseExternal]
  split
  · rfl
  rename_i existing _
  simp only
  split
  · refine find_erase_of_ne (fun e => hkey ?_) _
    rw [e]
    exact sees_pair project existing
  · rfl

/-- The index of a project is the inverse of its instances. -/
def Indexed (project : ProjectId) (indexes : InstanceIndexes) : Prop :=
  ∀ key, Sees project key → ∀ s, indexes.external.find key = some s ↔
    ∃ config, indexes.instances.find (scopedKey project s) = some config ∧
      pairKey project config = key

/-- Releasing drops exactly what the item's instance held. -/
theorem releaseExternal_indexed (h : Indexed project indexes) {key : String}
    (hkey : Sees project key) (s : SequenceId) :
    (releaseExternal project item indexes).find key = some s ↔
      s ≠ item.sequenceId ∧ ∃ config, indexes.instances.find (scopedKey project s) = some config ∧
        pairKey project config = key := by
  constructor
  · intro hfind
    have hindex := releaseExternal_some hfind
    refine ⟨fun hs => ?_, (h key hkey s).mp hindex⟩
    subst hs
    obtain ⟨config, hconfig, rfl⟩ := (h key hkey item.sequenceId).mp hindex
    rw [releaseExternal, hconfig] at hfind
    have hown : indexes.external.find
        (externalKey project config.dataSourceId config.externalSequenceId) =
          some item.sequenceId := hindex
    simp only [if_pos hown] at hfind
    have hnone := find_erase_self (pairKey project config) indexes.external
    rw [pairKey] at hnone hfind
    rw [hnone] at hfind
    cases hfind
  · rintro ⟨hs, hheld⟩
    exact releaseExternal_other ((h key hkey s).mpr hheld) hs

/-- One item stored whose key nobody else holds. -/
theorem store_indexed (h : Indexed project indexes)
    (hfree : ∀ owner, (releaseExternal project item indexes).find (pairKey project item) =
      some owner → owner = item.sequenceId) :
    Indexed project
      { instances := put (scopedKey project item.sequenceId) { item with projectId := project }
          indexes.instances
        external := put (pairKey project item) item.sequenceId
          (releaseExternal project item indexes) } := by
  intro key hkey s
  have hreleased := @releaseExternal_indexed project item indexes h key hkey s
  simp only
  by_cases hs : s = item.sequenceId
  · -- the item itself holds its new key and no other
    subst hs
    rw [find_put_self]
    constructor
    · intro hfind
      refine ⟨_, rfl, ?_⟩
      by_contra hne
      have hother : key ≠ pairKey project item := fun e => hne e.symm
      rw [find_put_of_ne hother] at hfind
      exact (hreleased.mp hfind).1 rfl
    · rintro ⟨config, hconfig, rfl⟩
      obtain rfl := Option.some.inj hconfig
      exact find_put_self ..
  · rw [find_put_of_ne fun e => hs (scopedKey_inj e)]
    by_cases hnew : key = pairKey project item
    · subst hnew
      rw [find_put_self]
      constructor
      · intro hsome
        exact absurd (Option.some.inj hsome).symm hs
      · intro hheld
        exact absurd (hfree s (hreleased.mpr ⟨hs, hheld⟩)) hs
    · rw [find_put_of_ne hnew]
      exact hreleased.trans (and_iff_right hs)

/-! ## The loop over the items -/

/-- The tables after one item. -/
def storeItem (project : ProjectId) (item : RuntimeInstanceConfig) (indexes : InstanceIndexes) :
    InstanceIndexes :=
  { instances := put (scopedKey project item.sequenceId) { item with projectId := project }
      indexes.instances
    external := put (pairKey project item) item.sequenceId
      (releaseExternal project item indexes) }

/-- What it takes to get past the first item. -/
theorem upsertInstanceItems_cons {items : List RuntimeInstanceConfig} {seen : List SequenceId} :
    upsertInstanceItems project (item :: items) seen indexes = .ok out ↔
      (item.sequenceId ≠ "" ∧ item.dataSourceId ≠ "" ∧ item.externalSequenceId ≠ "") ∧
      item.sequenceId ∉ seen ∧
      (∀ owner, (releaseExternal project item indexes).find (pairKey project item) = some owner →
        owner = item.sequenceId) ∧
      upsertInstanceItems project items (item.sequenceId :: seen)
        (storeItem project item indexes) = .ok out := by
  have hblank : (item.sequenceId.isEmpty || item.dataSourceId.isEmpty ||
      item.externalSequenceId.isEmpty) = true ↔
      ¬ (item.sequenceId ≠ "" ∧ item.dataSourceId ≠ "" ∧ item.externalSequenceId ≠ "") := by
    simp only [Bool.or_eq_true, String.isEmpty_iff]
    tauto
  -- the pair is looked up after the item has let go of its former one
  have hclash : ((releaseExternal project item indexes).find (pairKey project item)).any
      (fun owner => decide (owner ≠ item.sequenceId)) = true ↔
      ¬ ∀ owner, (releaseExternal project item indexes).find (pairKey project item) = some owner →
        owner = item.sequenceId := by
    cases (releaseExternal project item indexes).find (pairKey project item) with
    | none => simp
    | some owner => simp
  rw [upsertInstanceItems]
  by_cases h1 : (item.sequenceId.isEmpty || item.dataSourceId.isEmpty ||
      item.externalSequenceId.isEmpty) = true
  · rw [if_pos h1]
    refine iff_of_false (fun h => ?_) fun h => hblank.mp h1 h.1
    cases h
  rw [if_neg h1]
  have hnamed := not_not.mp (mt hblank.mpr h1)
  by_cases h2 : item.sequenceId ∈ seen
  · rw [if_pos h2]
    refine iff_of_false (fun h => ?_) fun h => h.2.1 h2
    cases h
  rw [if_neg h2]
  by_cases h3 : ((releaseExternal project item indexes).find (pairKey project item)).any
      (fun owner => decide (owner ≠ item.sequenceId)) = true
  · refine iff_of_false (fun h => ?_) fun h => hclash.mp h3 h.2.2.1
    rw [pairKey] at h3
    simp only [h3, if_true] at h
    cases h
  · have hfree := not_not.mp (mt hclash.mpr h3)
    rw [pairKey] at h3
    simp only [h3]
    exact ⟨fun h => ⟨hnamed, h2, hfree, h⟩, fun h => h.2.2.2⟩

/-- Inserting instances files them. -/
theorem upsertInstanceItems_instances {items : List RuntimeInstanceConfig} {seen : List SequenceId}
    (h : upsertInstanceItems project items seen indexes = .ok out) :
    out.instances = withItems project items indexes.instances := by
  induction items generalizing seen indexes with
  | nil =>
      rw [upsertInstanceItems] at h
      injection h with h
      rw [← h]
      rfl
  | cons item items ih => exact ih (upsertInstanceItems_cons.mp h).2.2.2

/-- Inserting instances keeps the index in step. -/
theorem upsertInstanceItems_indexed {items : List RuntimeInstanceConfig} {seen : List SequenceId}
    (hindexed : Indexed project indexes)
    (h : upsertInstanceItems project items seen indexes = .ok out) : Indexed project out := by
  induction items generalizing seen indexes with
  | nil =>
      rw [upsertInstanceItems] at h
      injection h with h
      exact h ▸ hindexed
  | cons item items ih =>
      obtain ⟨-, -, hfree, hrest⟩ := upsertInstanceItems_cons.mp h
      exact ih (store_indexed hindexed hfree) hrest

/-- The keys of other projects are left alone. -/
theorem upsertInstanceItems_unseen {items : List RuntimeInstanceConfig} {seen : List SequenceId}
    (h : upsertInstanceItems project items seen indexes = .ok out) {key : String}
    (hkey : ¬ Sees project key) :
    out.instances.find key = indexes.instances.find key ∧
      out.external.find key = indexes.external.find key := by
  induction items generalizing seen indexes with
  | nil =>
      rw [upsertInstanceItems] at h
      injection h with h
      rw [← h]
      exact ⟨rfl, rfl⟩
  | cons item items ih =>
      obtain ⟨hinstances, hexternal⟩ := ih (upsertInstanceItems_cons.mp h).2.2.2
      have hscoped : key ≠ scopedKey project item.sequenceId := by
        rintro rfl
        exact hkey (sees_scoped ..)
      have hpair : key ≠ pairKey project item := by
        rintro rfl
        exact hkey (sees_pair ..)
      refine ⟨hinstances.trans (find_put_of_ne hscoped ..), hexternal.trans ?_⟩
      exact (find_put_of_ne hpair ..).trans (releaseExternal_unseen hkey)

/-- Items that take keys nobody holds but themselves: accepted. -/
theorem upsertInstanceItems_free {items : List RuntimeInstanceConfig} {seen : List SequenceId}
    (hitems : Snapshot items) (hseen : ∀ item ∈ items, item.sequenceId ∉ seen)
    (hkeys : items.Pairwise fun item other => pairKey project item ≠ pairKey project other)
    (hfree : ∀ item ∈ items, ∀ owner,
      indexes.external.find (pairKey project item) = some owner → owner = item.sequenceId) :
    ∃ out, upsertInstanceItems project items seen indexes = .ok out := by
  induction items generalizing seen indexes with
  | nil => exact ⟨indexes, rfl⟩
  | cons item items ih =>
      obtain ⟨hne, hkeys⟩ := List.pairwise_cons.mp hkeys
      obtain ⟨hfresh, hdistinct⟩ := List.nodup_cons.mp hitems.distinct
      have hrest : Snapshot items :=
        ⟨fun other hother => hitems.named other (List.mem_cons_of_mem item hother), hdistinct⟩
      obtain ⟨out, hout⟩ := @ih (storeItem project item indexes) (item.sequenceId :: seen) hrest
        (fun other hother hmem => by
          rcases List.mem_cons.mp hmem with e | hold
          · exact hfresh (e ▸ List.mem_map_of_mem hother)
          · exact hseen other (List.mem_cons_of_mem item hother) hold)
        hkeys
        (fun other hother owner hfind => by
          have hother' : pairKey project other ≠ pairKey project item :=
            (hne other hother).symm
          rw [storeItem, find_put_of_ne hother'] at hfind
          exact hfree other (List.mem_cons_of_mem item hother) owner (releaseExternal_some hfind))
      refine ⟨out, upsertInstanceItems_cons.mpr ⟨hitems.named item (List.mem_cons_self ..),
        hseen item (List.mem_cons_self ..), fun owner hfind => ?_, hout⟩⟩
      exact hfree item (List.mem_cons_self ..) owner (releaseExternal_some hfind)

/-- An item that comes first and takes a key another sequence holds is refused. -/
theorem upsertInstanceItems_refused {items : List RuntimeInstanceConfig} {seen : List SequenceId}
    {owner : SequenceId} (hheld : indexes.external.find (pairKey project item) = some owner)
    (hne : owner ≠ item.sequenceId) :
    upsertInstanceItems project (item :: items) seen indexes ≠ .ok out := by
  intro h
  exact hne ((upsertInstanceItems_cons.mp h).2.2.1 owner (releaseExternal_other hheld hne))

/-- A snapshot on its own is built with its index. -/
theorem replaceInstanceItems_indexed {items : List RuntimeInstanceConfig}
    (hindexed : Indexed project indexes)
    (h : replaceInstanceItems project items indexes = .ok out) : Indexed project out := by
  induction items generalizing indexes with
  | nil =>
      rw [replaceInstanceItems] at h
      injection h with h
      exact h ▸ hindexed
  | cons item items ih =>
      rw [replaceInstanceItems] at h
      split at h
      · cases h
      split at h
      · cases h
      rename_i hknown
      simp only at h
      split at h
      · cases h
      rename_i hpair
      have hnew : indexes.instances.find (scopedKey project item.sequenceId) = none :=
        Option.not_isSome_iff_eq_none.mp hknown
      have hrelease : releaseExternal project item indexes = indexes.external := by
        rw [releaseExternal, hnew]
      have hstored := @store_indexed project item indexes hindexed fun owner hfind => by
        rw [hrelease] at hfind
        rw [pairKey] at hfind
        rw [hfind] at hpair
        exact absurd rfl hpair
      rw [hrelease] at hstored
      exact ih hstored h

/-- Keys of other projects stay. -/
theorem replaceInstanceItems_unseen {items : List RuntimeInstanceConfig}
    (h : replaceInstanceItems project items indexes = .ok out) {key : String}
    (hkey : ¬ Sees project key) :
    out.instances.find key = indexes.instances.find key ∧
      out.external.find key = indexes.external.find key := by
  induction items generalizing indexes with
  | nil =>
      rw [replaceInstanceItems] at h
      injection h with h
      rw [← h]
      exact ⟨rfl, rfl⟩
  | cons item items ih =>
      rw [replaceInstanceItems] at h
      split at h
      · cases h
      split at h
      · cases h
      simp only at h
      split at h
      · cases h
      obtain ⟨hinstances, hexternal⟩ := ih h
      have hscoped : key ≠ scopedKey project item.sequenceId := by
        rintro rfl
        exact hkey (sees_scoped ..)
      have hpair : key ≠ externalKey project item.dataSourceId item.externalSequenceId := by
        rintro rfl
        exact hkey (sees_pair ..)
      exact ⟨hinstances.trans (find_put_of_ne hscoped ..),
        hexternal.trans (find_put_of_ne hpair ..)⟩

end Index

/-! ## Every reachable registry -/

/-- The two tables of the instances. -/
def tablesOf (registry : RuntimeConfigRegistry) : InstanceIndexes :=
  ⟨registry.instanceConfigs, registry.externalSequenceIndex⟩

section Reachable

variable {project : ProjectId} {registry : RuntimeConfigRegistry}

/-- Only the project's own keys matter. -/
theorem Indexed.congr {tables tables' : InstanceIndexes} (h : Indexed project tables)
    (hinstances : ∀ key, Sees project key →
      tables'.instances.find key = tables.instances.find key)
    (hexternal : ∀ key, Sees project key →
      tables'.external.find key = tables.external.find key) : Indexed project tables' := by
  intro key hkey s
  rw [hexternal key hkey, hinstances _ (sees_scoped project s)]
  exact h key hkey s

theorem indexed_empty (project : ProjectId) :
    Indexed project ⟨KeyedTable.empty, KeyedTable.empty⟩ := by
  intro key _ s
  refine iff_of_false (fun h => ?_) fun h => ?_
  · cases h
  · obtain ⟨config, hconfig, -⟩ := h
    cases hconfig

theorem find_carryOver {ν : Type} (q : ProjectId) (old new : Table String ν) (key : String) :
    (carryOver q old new).find key =
      (new.find key).or (if hasPrefix (scopePrefix q) key = false then old.find key else none) := by
  rw [carryOver, find_adopt]
  cases hasPrefix (scopePrefix q) key <;> rfl

/-- A replacement leaves its project what the snapshot built. -/
theorem indexed_replaceInstances (h : Indexed project (tablesOf registry)) (projectId : ProjectId)
    (items : List RuntimeInstanceConfig) (hapart : Apart project (snapshotProject projectId)) :
    Indexed project (tablesOf (after registry (.replaceInstances projectId items))) := by
  simp only [after, perform, replaceInstanceConfigs]
  cases hbuilt : replaceInstanceItems (snapshotProject projectId) items
      ⟨KeyedTable.empty, KeyedTable.empty⟩ with
  | error message => exact h
  | ok built =>
      by_cases hp : project = snapshotProject projectId
      · subst hp
        have hdropped : ∀ {ν : Type} (old new : Table String ν) key,
            Sees (snapshotProject projectId) key →
              (carryOver (snapshotProject projectId) old new).find key = new.find key := by
          intro ν old new key hkey
          rw [Sees] at hkey
          rw [find_carryOver, hkey]
          exact Option.or_none
        exact (replaceInstanceItems_indexed (indexed_empty _) hbuilt).congr
          (fun key hkey => hdropped _ _ key hkey) fun key hkey => hdropped _ _ key hkey
      · have hkept : ∀ key, Sees project key → ¬ Sees (snapshotProject projectId) key :=
          fun key hkey => apart_unseen hapart hp hkey
        have hcarried : ∀ {ν : Type} (old new : Table String ν) key, Sees project key →
            new.find key = none →
              (carryOver (snapshotProject projectId) old new).find key = old.find key := by
          intro ν old new key hkey hnone
          rw [find_carryOver, hnone, if_pos (Bool.not_eq_true _ |>.mp (hkept key hkey))]
          rfl
        refine h.congr (fun key hkey => hcarried _ _ key hkey ?_) fun key hkey =>
          hcarried _ _ key hkey ?_
        · exact (replaceInstanceItems_unseen hbuilt (hkept key hkey)).1
        · exact (replaceInstanceItems_unseen hbuilt (hkept key hkey)).2

/-- An upsert keeps the index of every project in step. -/
theorem indexed_upsertInstances (h : Indexed project (tablesOf registry)) (projectId : ProjectId)
    (items : List RuntimeInstanceConfig) (hapart : Apart project (snapshotProject projectId)) :
    Indexed project (tablesOf (after registry (.upsertInstances projectId items))) := by
  simp only [after, perform, upsertInstanceConfigs]
  cases hstored : upsertInstanceItems (snapshotProject projectId) items []
      ⟨registry.instanceConfigs, registry.externalSequenceIndex⟩ with
  | error message => exact h
  | ok out =>
      by_cases hp : project = snapshotProject projectId
      · subst hp
        exact upsertInstanceItems_indexed h hstored
      · exact h.congr
          (fun key hkey => (upsertInstanceItems_unseen hstored (apart_unseen hapart hp hkey)).1)
          fun key hkey => (upsertInstanceItems_unseen hstored (apart_unseen hapart hp hkey)).2

/-- One operation keeps the index of a project that is apart from the one it writes. -/
theorem indexed_after (h : Indexed project (tablesOf registry)) (op : RegistryOp)
    (hapart : Apart project (opProject op)) : Indexed project (tablesOf (after registry op)) := by
  cases op with
  | replaceInstances projectId items => exact indexed_replaceInstances h projectId items hapart
  | upsertInstances projectId items => exact indexed_upsertInstances h projectId items hapart
  | replaceConstraints projectId items =>
      obtain ⟨constraints, -, hafter⟩ := after_replaceConstraints registry projectId items
      rw [hafter]
      exact h
  | upsertConstraints projectId items =>
      obtain ⟨constraints, -, hafter⟩ := after_upsertConstraints registry projectId items
      rw [hafter]
      exact h
  | upsertDerivedSeries projectId items =>
      obtain ⟨derivedSeries, -, hafter⟩ := after_upsertDerivedSeries registry projectId items
      rw [hafter]
      exact h

theorem indexed_reached {ops : List RegistryOp} (hapart : ∀ op ∈ ops, Apart project (opProject op)) :
    Indexed project (tablesOf (run after {} ops)) :=
  @run_invariant _ _ after (fun registry => Indexed project (tablesOf registry))
    (fun op => Apart project (opProject op)) (fun _ op hop h => indexed_after h op hop) {}
    (indexed_empty project) ops hapart

end Reachable

/-! ## The outcome of a snapshot -/

section Outcome

variable {project : ProjectId} {items : List RuntimeInstanceConfig} {tables : InstanceIndexes}

/-- Other instances stay as they are. -/
theorem withItems_other (instances : Table String RuntimeInstanceConfig) {key : String}
    (h : ∀ item ∈ items, scopedKey project item.sequenceId ≠ key) :
    (withItems project items instances).find key = instances.find key := by
  induction items generalizing instances with
  | nil => rfl
  | cons item items ih =>
      refine (ih _ fun other hother => h other (List.mem_cons_of_mem item hother)).trans ?_
      exact find_put_of_ne (h item (List.mem_cons_self ..)).symm ..

/-- With distinct ids each item is filed under its key. -/
theorem withItems_item (instances : Table String RuntimeInstanceConfig)
    (hdistinct : (items.map RuntimeInstanceConfig.sequenceId).Nodup) {item : RuntimeInstanceConfig}
    (hitem : item ∈ items) :
    (withItems project items instances).find (scopedKey project item.sequenceId) =
      some { item with projectId := project } := by
  induction items generalizing instances with
  | nil => exact absurd hitem List.not_mem_nil
  | cons first items ih =>
      obtain ⟨hfresh, hdistinct⟩ := List.nodup_cons.mp hdistinct
      rcases List.mem_cons.mp hitem with rfl | hrest
      · show (withItems project items (put _ _ instances)).find _ = _
        rw [withItems_other, find_put_self]
        intro other hother hkey
        exact hfresh (scopedKey_inj hkey ▸ List.mem_map_of_mem hother)
      · exact ih _ hdistinct hrest

/-- The order of the items does not show in the table. -/
theorem withItems_perm {items' : List RuntimeInstanceConfig} (hperm : items'.Perm items)
    (hdistinct : (items.map RuntimeInstanceConfig.sequenceId).Nodup)
    (instances : Table String RuntimeInstanceConfig) (key : String) :
    (withItems project items' instances).find key = (withItems project items instances).find key := by
  have hdistinct' : (items'.map RuntimeInstanceConfig.sequenceId).Nodup :=
    (hperm.map _).nodup_iff.mpr hdistinct
  by_cases hkey : ∃ item ∈ items, scopedKey project item.sequenceId = key
  · obtain ⟨item, hitem, rfl⟩ := hkey
    rw [withItems_item instances hdistinct hitem,
      withItems_item instances hdistinct' (hperm.mem_iff.mpr hitem)]
  · rw [withItems_other instances fun item hitem e => hkey ⟨item, hitem, e⟩,
      withItems_other instances fun item hitem e => hkey ⟨item, hperm.mem_iff.mp hitem, e⟩]

theorem Snapshot.perm {items' : List RuntimeInstanceConfig} (h : Snapshot items)
    (hperm : items'.Perm items) : Snapshot items' :=
  ⟨fun item hitem => h.named item (hperm.mem_iff.mp hitem),
    (hperm.map _).nodup_iff.mpr h.distinct⟩

/-- What is accepted leaves no key to two instances. -/
theorem not_sharesKey (hindexed : Indexed project tables) {out : InstanceIndexes}
    (h : upsertInstanceItems project items [] tables = .ok out) :
    ¬ SharesKey project (withItems project items tables.instances) := by
  rintro ⟨s, s', config, config', hne, hs, hs', hkey⟩
  have hout := upsertInstanceItems_indexed hindexed h
  rw [← upsertInstanceItems_instances h] at hs hs'
  have hfind := (hout _ (sees_pair project config) s).mpr ⟨config, hs, rfl⟩
  have hfind' := (hout _ (sees_pair project config) s').mpr ⟨config', hs', hkey.symm⟩
  exact hne (Option.some.inj (hfind.symm.trans hfind'))

theorem sharesKey_of_sharesPair {instances : Table String RuntimeInstanceConfig}
    (h : SharesPair project instances) : SharesKey project instances := by
  obtain ⟨s, s', config, config', hne, hs, hs', hsource, hexternal⟩ := h
  exact ⟨s, s', config, config', hne, hs, hs', by rw [pairKey, pairKey, hsource, hexternal]⟩

/-- No key for two in the end and nothing taken over: accepted. -/
theorem accepted_of_free (hitems : Snapshot items) (hindexed : Indexed project tables)
    (hkey : ¬ SharesKey project (withItems project items tables.instances))
    (hheld : ¬ TakesHeld project items tables.instances) :
    ∃ out, upsertInstanceItems project items [] tables = .ok out := by
  have hstored := fun item (hitem : item ∈ items) =>
    @withItems_item project items tables.instances hitems.distinct item hitem
  refine upsertInstanceItems_free hitems (fun item _ => List.not_mem_nil) ?_ fun item hitem owner
    howner => ?_
  · refine (List.pairwise_map.mp hitems.distinct).imp_of_mem
      fun {item other} hitem hother hne e => ?_
    exact hkey ⟨_, _, _, _, hne, hstored item hitem, hstored other hother, e⟩
  · by_contra hne
    obtain ⟨held, hheldby, hpair⟩ := (hindexed _ (sees_pair project item) owner).mp howner
    by_cases hother : ∃ other ∈ items, other.sequenceId = owner
    · obtain ⟨other, hmem, rfl⟩ := hother
      exact hheld ⟨item, hitem, other, hmem, hne, held, hheldby, hpair⟩
    · -- an instance the snapshot does not touch keeps the key
      have hkept : (withItems project items tables.instances).find (scopedKey project owner) =
          some held := by
        rw [withItems_other _ fun other hmem e => hother ⟨other, hmem, scopedKey_inj e⟩]
        exact hheldby
      exact hkey ⟨_, _, _, _, hne, hkept, hstored item hitem, hpair⟩

/-- With a key taken over, the item that takes it may come first. -/
theorem refused_of_held (hindexed : Indexed project tables)
    (h : TakesHeld project items tables.instances) :
    ∃ items' : List RuntimeInstanceConfig, items'.Perm items ∧
      ∀ out, upsertInstanceItems project items' [] tables ≠ .ok out := by
  obtain ⟨item, hitem, other, -, hne, held, hheld, hpair⟩ := h
  obtain ⟨front, back, rfl⟩ := List.append_of_mem hitem
  refine ⟨item :: (front ++ back), List.perm_middle.symm, fun out => ?_⟩
  refine upsertInstanceItems_refused ?_ hne
  exact (hindexed _ (sees_pair project item) other.sequenceId).mpr ⟨held, hheld, hpair⟩

/-- Accepted in the operation means stored by the loop. -/
theorem accepted_iff {projectId : ProjectId} {registry : RuntimeConfigRegistry} :
    isSuccessful (upsertInstanceConfigs projectId items registry).2.code = true ↔
      ∃ out, upsertInstanceItems (snapshotProject projectId) items [] (tablesOf registry) =
        .ok out := by
  rw [upsertInstanceConfigs, tablesOf]
  cases upsertInstanceItems (snapshotProject projectId) items []
      ⟨registry.instanceConfigs, registry.externalSequenceIndex⟩ with
  | error message =>
      refine iff_of_false (fun h => ?_) fun h => ?_
      · cases h
      · obtain ⟨out, hout⟩ := h
        cases hout
  | ok out => exact iff_of_true rfl ⟨out, rfl⟩

theorem sameRegistry_refl (registry : RuntimeConfigRegistry) : SameRegistry registry registry :=
  ⟨fun _ => rfl, fun _ => rfl, rfl, rfl, rfl⟩

/-- A refused snapshot changes nothing. -/
theorem refused_same {projectId : ProjectId} {registry : RuntimeConfigRegistry}
    (h : isSuccessful (upsertInstanceConfigs projectId items registry).2.code = false) :
    (upsertInstanceConfigs projectId items registry).1 = registry := by
  rw [upsertInstanceConfigs] at h ⊢
  cases hstored : upsertInstanceItems (snapshotProject projectId) items []
      ⟨registry.instanceConfigs, registry.externalSequenceIndex⟩ with
  | error message => rfl
  | ok out =>
      rw [hstored] at h
      cases h

/-- Two accepted orders leave the same registry: the instances are those of the snapshot,
    and the index follows. -/
theorem accepted_same {projectId : ProjectId} {registry : RuntimeConfigRegistry}
    {items' : List RuntimeInstanceConfig} (hperm : items'.Perm items) (hitems : Snapshot items)
    (hindexed : Indexed (snapshotProject projectId) (tablesOf registry)) {out out' : InstanceIndexes}
    (h : upsertInstanceItems (snapshotProject projectId) items [] (tablesOf registry) = .ok out)
    (h' : upsertInstanceItems (snapshotProject projectId) items' [] (tablesOf registry) =
      .ok out') :
    SameRegistry (upsertInstanceConfigs projectId items' registry).1
      (upsertInstanceConfigs projectId items registry).1 := by
  have hinstances : ∀ key, out'.instances.find key = out.instances.find key := by
    intro key
    rw [upsertInstanceItems_instances h, upsertInstanceItems_instances h',
      withItems_perm hperm hitems.distinct]
  have hexternal : ∀ key, out'.external.find key = out.external.find key := by
    intro key
    by_cases hkey : Sees (snapshotProject projectId) key
    · have hout := upsertInstanceItems_indexed hindexed h key hkey
      have hout' := upsertInstanceItems_indexed hindexed h' key hkey
      refine Option.ext fun s => ?_
      rw [hout, hout', hinstances]
    · rw [(upsertInstanceItems_unseen h hkey).2, (upsertInstanceItems_unseen h' hkey).2]
  rw [tablesOf] at h h'
  rw [upsertInstanceConfigs, upsertInstanceConfigs, h, h']
  exact ⟨hinstances, hexternal, rfl, rfl, rfl⟩

/-- On a registry whose index is exact. -/
theorem outcome_only_of_indexed {projectId : ProjectId} {registry : RuntimeConfigRegistry}
    (hindexed : Indexed (snapshotProject projectId) (tablesOf registry)) (hitems : Snapshot items) :
    OutcomeOnly projectId items registry ↔
      SharesPair (snapshotProject projectId)
          (withItems (snapshotProject projectId) items registry.instanceConfigs) ∨
        ¬ SharesKey (snapshotProject projectId)
            (withItems (snapshotProject projectId) items registry.instanceConfigs) ∧
          ¬ TakesHeld (snapshotProject projectId) items registry.instanceConfigs := by
  -- two instances that end with one key are refused in every order
  have hrefused : ∀ items' : List RuntimeInstanceConfig, items'.Perm items →
      SharesKey (snapshotProject projectId)
        (withItems (snapshotProject projectId) items registry.instanceConfigs) →
      isSuccessful (upsertInstanceConfigs projectId items' registry).2.code = false := by
    intro items' hperm hkey
    rw [← Bool.not_eq_true, accepted_iff]
    rintro ⟨out, hout⟩
    refine not_sharesKey hindexed hout ?_
    obtain ⟨s, s', config, config', hne, hs, hs', he⟩ := hkey
    refine ⟨s, s', config, config', hne, ?_, ?_, he⟩
    · exact (withItems_perm hperm hitems.distinct ..).trans hs
    · exact (withItems_perm hperm hitems.distinct ..).trans hs'
  constructor
  · intro h
    by_cases hpair : SharesPair (snapshotProject projectId)
        (withItems (snapshotProject projectId) items registry.instanceConfigs)
    · exact Or.inl hpair
    · have haccepted := h.decided.mpr hpair
      refine Or.inr ⟨fun hkey => ?_, fun hheld => ?_⟩
      · exact Bool.false_ne_true ((hrefused items (.refl _) hkey).symm.trans haccepted)
      · -- the taker first: then the key is still held
        obtain ⟨items', hperm, hnever⟩ := refused_of_held hindexed hheld
        obtain ⟨out, hout⟩ := accepted_iff.mp ((h.permuted items' hperm).1.trans haccepted)
        exact hnever out hout
  · rintro (hpair | ⟨hkey, hheld⟩)
    · have hall := fun items' hperm => hrefused items' hperm (sharesKey_of_sharesPair hpair)
      have hself := hall items (.refl _)
      refine ⟨iff_of_false (by rw [hself]; exact Bool.false_ne_true) (not_not.mpr hpair),
        fun items' hperm => ⟨(hall items' hperm).trans hself.symm, ?_⟩⟩
      rw [refused_same hself, refused_same (hall items' hperm)]
      exact sameRegistry_refl registry
    · have hnot : ¬ SharesPair (snapshotProject projectId)
          (withItems (snapshotProject projectId) items registry.instanceConfigs) :=
        fun h => hkey (sharesKey_of_sharesPair h)
      obtain ⟨out, hout⟩ := accepted_of_free hitems hindexed hkey hheld
      have hself := accepted_iff.mpr ⟨out, hout⟩
      refine ⟨iff_of_true hself hnot, fun items' hperm => ?_⟩
      obtain ⟨out', hout'⟩ := @accepted_of_free _ items' _ (hitems.perm hperm) hindexed
        (fun ⟨s, s', config, config', hne, hs, hs', he⟩ => hkey ⟨s, s', config, config', hne,
          (withItems_perm hperm hitems.distinct ..).symm.trans hs,
          (withItems_perm hperm hitems.distinct ..).symm.trans hs', he⟩)
        (fun ⟨item, hitem, other, hother, hne, held, hfind, he⟩ => hheld ⟨item,
          hperm.mem_iff.mp hitem, other, hperm.mem_iff.mp hother, hne, held, hfind, he⟩)
      exact ⟨(accepted_iff.mpr ⟨out', hout'⟩).trans hself.symm,
        accepted_same hperm hitems hindexed hout hout'⟩

end Outcome

/-- **Incremental synchronisation.**  In every registry a run leads to, a snapshot of a
    project depends on its outcome alone exactly when the outcome has a conflict, or no
    two of its instances have one key and no item takes the key another item holds. -/
theorem outcome_only_iff (ops : List RegistryOp) (projectId : ProjectId)
    {items : List RuntimeInstanceConfig} (hitems : Snapshot items)
    (hapart : ∀ op ∈ ops, Apart (snapshotProject projectId) (opProject op)) :
    OutcomeOnly projectId items (run after {} ops) ↔
      SharesPair (snapshotProject projectId) (withItems (snapshotProject projectId) items
          (run after {} ops).instanceConfigs) ∨
        ¬ SharesKey (snapshotProject projectId) (withItems (snapshotProject projectId) items
            (run after {} ops).instanceConfigs) ∧
          ¬ TakesHeld (snapshotProject projectId) items (run after {} ops).instanceConfigs :=
  outcome_only_of_indexed (indexed_reached hapart) hitems

/-- An instance of one data source. -/
def sensor (id externalId : String) : RuntimeInstanceConfig :=
  { sequenceId := id, dataSourceId := "d", externalSequenceId := externalId }

/-- Two sensors under the external ids `x` and `y`. -/
def twoSensors : List RegistryOp := [.upsertInstances "p" [sensor "a" "x", sensor "b" "y"]]

theorem snapshot_takeOver : Snapshot [sensor "b" "z", sensor "a" "y"] :=
  ⟨by decide, by decide⟩

/-- A snapshot in which one sensor takes the external id of the other. -/
theorem outcome_only_iff_takeOver :
    OutcomeOnly "p" [sensor "b" "z", sensor "a" "y"] (run after {} twoSensors) ↔
      SharesPair "p" (withItems "p" [sensor "b" "z", sensor "a" "y"]
          (run after {} twoSensors).instanceConfigs) ∨
        ¬ SharesKey "p" (withItems "p" [sensor "b" "z", sensor "a" "y"]
            (run after {} twoSensors).instanceConfigs) ∧
          ¬ TakesHeld "p" [sensor "b" "z", sensor "a" "y"]
            (run after {} twoSensors).instanceConfigs :=
  outcome_only_iff twoSensors "p" snapshot_takeOver (by decide +kernel)

/-- The external id `y` goes from `b` to `a`: stored if `b` lets go of it first, refused
    the other way round. -/
theorem take_over_depends_on_order :
    isSuccessful (upsertInstanceConfigs "p" [sensor "b" "z", sensor "a" "y"]
        (run after {} twoSensors)).2.code = true ∧
    isSuccessful (upsertInstanceConfigs "p" [sensor "a" "y", sensor "b" "z"]
        (run after {} twoSensors)).2.code = false ∧
    ¬ OutcomeOnly "p" [sensor "b" "z", sensor "a" "y"] (run after {} twoSensors) := by
  have haccepted : isSuccessful (upsertInstanceConfigs "p" [sensor "b" "z", sensor "a" "y"]
      (run after {} twoSensors)).2.code = true := by decide +kernel
  have hrefused : isSuccessful (upsertInstanceConfigs "p" [sensor "a" "y", sensor "b" "z"]
      (run after {} twoSensors)).2.code = false := by decide +kernel
  refine ⟨haccepted, hrefused, fun h => ?_⟩
  have hperm := (h.permuted [sensor "a" "y", sensor "b" "z"] (List.Perm.swap ..)).1
  rw [haccepted, hrefused] at hperm
  cases hperm

end InstanceSync
