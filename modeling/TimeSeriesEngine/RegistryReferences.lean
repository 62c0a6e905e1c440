import TimeSeriesEngine.DerivedPatch
import TimeSeriesEngine.Library.Transition

/-!
# References between configurations

A constraint names instances in its variable mapping, a derived formula reads
instances and writes a sequence that must be none.  The registry checks both when
the referring object is stored (`stored_mapped`, `validateDerivedConfig`), and
never again: an instance operation looks at the instance table alone.

* `Installed` — what an accepted instance operation leaves in the table;
* `KeepsReferences` — what it would have to bring along;
* `references_iff` — over a run, the references hold in every state exactly when
  every accepted instance operation does.
-/

namespace RegistryReferences

open TseTypes KeyedTable ConstraintCheck Registry WindowUpdate DerivedSeries DerivedPatch
open FormulaValue Transition

/-! ## Runs -/

/-- The operations on instances, rules and derived series. -/
inductive RegistryOp where
  | replaceInstances (projectId : ProjectId) (items : List RuntimeInstanceConfig)
  | upsertInstances (projectId : ProjectId) (items : List RuntimeInstanceConfig)
  | replaceConstraints (projectId : ProjectId) (items : List RuntimeConstraintConfig)
  | upsertConstraints (projectId : ProjectId) (items : List RuntimeConstraintConfig)
  | upsertDerivedSeries (projectId : ProjectId) (items : List RuntimeDerivedSeriesConfig)

/-- An operation, with what it reports. -/
def perform (registry : RuntimeConfigRegistry) :
    RegistryOp → RuntimeConfigRegistry × OperationResult
  | .replaceInstances projectId items => replaceInstanceConfigs projectId items registry
  | .upsertInstances projectId items => upsertInstanceConfigs projectId items registry
  | .replaceConstraints projectId items => Registry.replaceConstraints projectId items registry
  | .upsertConstraints projectId items => Registry.upsertConstraints projectId items registry
  | .upsertDerivedSeries projectId items => upsertDerivedSeriesConfigs projectId items registry

/-- The registry behind an operation. -/
def after (registry : RuntimeConfigRegistry) (op : RegistryOp) : RuntimeConfigRegistry :=
  (perform registry op).1

/-- The operation is not refused. -/
def accepted (registry : RuntimeConfigRegistry) (op : RegistryOp) : Bool :=
  isSuccessful (perform registry op).2.code

/-- The project an operation writes. -/
def opProject : RegistryOp → ProjectId
  | .replaceInstances projectId _ => snapshotProject projectId
  | .upsertInstances projectId _ => snapshotProject projectId
  | .replaceConstraints projectId _ => snapshotProject projectId
  | .upsertConstraints projectId _ => snapshotProject projectId
  | .upsertDerivedSeries projectId _ => snapshotProject projectId

/-! ## The property -/

/-- Every stored reference is valid. -/
structure References (registry : RuntimeConfigRegistry) : Prop where
  mapped : ∀ key config, registry.constraints.find key = some config →
    ∀ variableName sequenceId,
      config.rule.variableMapping.find variableName = some sequenceId →
        (findInstance config.projectId sequenceId registry).isSome = true
  derived : ∀ key config, registry.derivedSeries.find key = some config →
    validateDerivedConfig (projectConfigs config.projectId registry.instanceConfigs) config = none

/-- An instance operation on a project brings along what the stored references need.
    A replacement also drops, so it must name every sequence they mention. -/
structure KeepsReferences (registry : RuntimeConfigRegistry) (project : ProjectId)
    (items : List RuntimeInstanceConfig) (dropping : Bool) : Prop where
  mapped : dropping = true → ∀ key config, registry.constraints.find key = some config →
    config.projectId = project → ∀ variableName sequenceId,
      config.rule.variableMapping.find variableName = some sequenceId →
        ∃ item ∈ items, item.sequenceId = sequenceId
  sources : dropping = true → ∀ key config, registry.derivedSeries.find key = some config →
    config.projectId = project → ∀ s ∈ sourcesFor config, ∃ item ∈ items, item.sequenceId = s
  numeric : ∀ key config, registry.derivedSeries.find key = some config →
    config.projectId = project → ∀ s ∈ sourcesFor config, ∀ item ∈ items,
      item.sequenceId = s → continuousNumeric item = true
  fresh : ∀ key config, registry.derivedSeries.find key = some config →
    config.projectId = project → ∀ item ∈ items, item.sequenceId ≠ config.derivedSequenceId

/-- The condition on one operation: an accepted instance operation keeps the references. -/
def Keeps (registry : RuntimeConfigRegistry) (op : RegistryOp) : Prop :=
  accepted registry op = true →
    match op with
    | .replaceInstances projectId items =>
        KeepsReferences registry (snapshotProject projectId) items true
    | .upsertInstances projectId items =>
        KeepsReferences registry (snapshotProject projectId) items false
    | _ => True

/-- Neither project is the beginning of the other's keys. -/
def Apart (p q : ProjectId) : Prop :=
  p = q ∨ hasPrefix (scopePrefix p) (scopePrefix q) = false ∧
    hasPrefix (scopePrefix q) (scopePrefix p) = false

instance (p q : ProjectId) : Decidable (Apart p q) :=
  inferInstanceAs (Decidable (_ ∨ _ ∧ _))

/-! ## Keys of projects that are apart -/

theorem scopedKey_inj {p : ProjectId} {s t : String} (h : scopedKey p s = scopedKey p t) : s = t :=
  append_right_inj_string h

theorem sees_own (p : ProjectId) (s : String) :
    hasPrefix (scopePrefix p) (scopedKey p s) = true :=
  hasPrefix_append _ _

/-- A project sees its own keys only. -/
theorem project_of_seen {p q : ProjectId} (h : Apart p q) {s : String}
    (hsees : hasPrefix (scopePrefix p) (scopedKey q s) = true) : p = q := by
  rcases h with heq | ⟨hpq, hqp⟩
  · exact heq
  rcases hasPrefix_or_of_both hsees (sees_own q s) with hle | hle
  · exact absurd (hpq.symm.trans hle) Bool.false_ne_true
  · exact absurd (hqp.symm.trans hle) Bool.false_ne_true

theorem project_of_key {p q : ProjectId} (h : Apart p q) {s t : String}
    (hkey : scopedKey p s = scopedKey q t) : p = q :=
  project_of_seen h (by rw [← hkey]; exact sees_own p s)

/-! ## Everything stands under its own project -/

/-- Instances stand under their own project and id; everything stored is of a project
    in use. -/
structure Filed (used : ProjectId → Prop) (registry : RuntimeConfigRegistry) : Prop where
  instances : ∀ key config, registry.instanceConfigs.find key = some config →
    used config.projectId ∧ key = scopedKey config.projectId config.sequenceId
  constraints : ∀ key config, registry.constraints.find key = some config → used config.projectId
  derived : ∀ key config, registry.derivedSeries.find key = some config → used config.projectId

theorem filed_empty (used : ProjectId → Prop) : Filed used {} where
  instances := fun _ _ h => by cases h
  constraints := fun _ _ h => by cases h
  derived := fun _ _ h => by cases h

section Filed

variable {used : ProjectId → Prop} (hsep : ∀ p q, used p → used q → Apart p q)
  {registry : RuntimeConfigRegistry} (hfiled : Filed used registry) {p : ProjectId} (hp : used p)

include hsep hfiled hp

/-- What a project reads of the shared table is what stands under its keys. -/
theorem mem_projectConfigs (config : RuntimeInstanceConfig) :
    config ∈ projectConfigs p registry.instanceConfigs ↔
      findInstance p config.sequenceId registry = some config := by
  constructor
  · intro hmem
    obtain ⟨key, hkey, hfind⟩ := List.mem_filterMap.mp hmem
    obtain ⟨hused, hname⟩ := hfiled.instances key config hfind
    have hsees := (List.mem_filter.mp hkey).2
    rw [hname] at hsees hfind
    rw [← project_of_seen (hsep p _ hp hused) hsees] at hfind
    exact hfind
  · intro hfind
    refine List.mem_filterMap.mpr ⟨scopedKey p config.sequenceId, ?_, hfind⟩
    refine List.mem_filter.mpr ⟨?_, sees_own p _⟩
    rw [registry.instanceConfigs.mem_keys]
    exact Option.isSome_iff_exists.mpr ⟨config, hfind⟩

theorem sequenceId_of_find {s : SequenceId} {config : RuntimeInstanceConfig}
    (hfind : findInstance p s registry = some config) : config.sequenceId = s := by
  obtain ⟨hused, hname⟩ := hfiled.instances _ config hfind
  have hproject := project_of_key (hsep p _ hp hused) hname
  rw [← hproject] at hname
  exact (scopedKey_inj hname).symm

/-- A numeric instance is one that is found and numeric. -/
theorem numericInstance_iff (s : SequenceId) :
    numericInstance (projectConfigs p registry.instanceConfigs) s = true ↔
      ∃ config, findInstance p s registry = some config ∧ continuousNumeric config = true := by
  rw [numericInstance]
  constructor
  · intro hany
    obtain ⟨config, hfound, hnum⟩ := (Option.any_eq_true _ _).mp hany
    have hid : config.sequenceId = s := by simpa using List.find?_some hfound
    refine ⟨config, ?_, hnum⟩
    rw [← hid]
    exact (mem_projectConfigs hsep hfiled hp config).mp (List.mem_of_find?_eq_some hfound)
  · rintro ⟨config, hfind, hnum⟩
    have hid := sequenceId_of_find hsep hfiled hp hfind
    have hmem : config ∈ projectConfigs p registry.instanceConfigs :=
      (mem_projectConfigs hsep hfiled hp config).mpr (by rw [hid]; exact hfind)
    cases hfound : (projectConfigs p registry.instanceConfigs).find?
        fun c => c.sequenceId = s with
    | none =>
        exact absurd hid (by simpa using List.find?_eq_none.mp hfound config hmem)
    | some other =>
        have hother : other.sequenceId = s := by simpa using List.find?_some hfound
        have hfind' := (mem_projectConfigs hsep hfiled hp other).mp
          (List.mem_of_find?_eq_some hfound)
        rw [hother, hfind] at hfind'
        rw [← Option.some.inj hfind']
        exact hnum

end Filed

/-! ## What an accepted operation stores -/

/-- The instance table after an accepted operation: the items under their keys, and
    of the rest what does not belong to the project, or everything. -/
structure Installed (project : ProjectId) (items : List RuntimeInstanceConfig) (dropping : Bool)
    (old new : Table String RuntimeInstanceConfig) : Prop where
  written : ∀ item ∈ items,
    new.find (scopedKey project item.sequenceId) = some { item with projectId := project }
  others : ∀ key, (∀ item ∈ items, scopedKey project item.sequenceId ≠ key) →
    new.find key =
      if dropping && hasPrefix (scopePrefix project) key then none else old.find key

/-- One item in front of an installed list. -/
theorem Installed.cons {project : ProjectId} {item : RuntimeInstanceConfig}
    {items : List RuntimeInstanceConfig} {old new : Table String RuntimeInstanceConfig}
    (h : Installed project items false
      (put (scopedKey project item.sequenceId) { item with projectId := project } old) new)
    (hfresh : ∀ other ∈ items, other.sequenceId ≠ item.sequenceId) :
    Installed project (item :: items) false old new where
  written := by
    intro other hother
    rcases List.mem_cons.mp hother with rfl | hrest
    · rw [h.others _ fun x hx hkey => hfresh x hx (scopedKey_inj hkey)]
      exact find_put_self _ _ _
    · exact h.written other hrest
  others := by
    intro key hkey
    rw [h.others key fun x hx => hkey x (List.mem_cons_of_mem _ hx)]
    exact find_put_of_ne (hkey item (List.mem_cons_self ..)).symm _ _

/-- What an upsert of instances installs. -/
theorem upsertInstanceItems_installed {project : ProjectId} {items : List RuntimeInstanceConfig}
    {seen : List SequenceId} {indexes out : InstanceIndexes}
    (h : upsertInstanceItems project items seen indexes = .ok out) :
    Installed project items false indexes.instances out.instances ∧
      ∀ item ∈ items, item.sequenceId ∉ seen := by
  induction items generalizing seen indexes with
  | nil =>
      cases h
      exact ⟨⟨fun _ hmem => absurd hmem List.not_mem_nil, fun _ _ => rfl⟩,
        fun _ hmem => absurd hmem List.not_mem_nil⟩
  | cons item items ih =>
      rw [upsertInstanceItems] at h
      split at h
      · cases h
      split at h
      · cases h
      rename_i hseen
      simp only at h
      split at h
      · cases h
      obtain ⟨hinstalled, hnew⟩ := ih h
      refine ⟨hinstalled.cons fun other hother heq => ?_, fun other hother => ?_⟩
      · exact hnew other hother (by rw [heq]; exact List.mem_cons_self ..)
      · rcases List.mem_cons.mp hother with rfl | hrest
        · exact hseen
        · exact fun hmem => hnew other hrest (List.mem_cons_of_mem _ hmem)

/-- What a replacement of instances installs. -/
theorem replaceInstanceItems_installed {project : ProjectId} {items : List RuntimeInstanceConfig}
    {indexes out : InstanceIndexes}
    (h : replaceInstanceItems project items indexes = .ok out) :
    Installed project items false indexes.instances out.instances ∧
      ∀ item ∈ items, indexes.instances.find (scopedKey project item.sequenceId) = none := by
  induction items generalizing indexes with
  | nil =>
      cases h
      exact ⟨⟨fun _ hmem => absurd hmem List.not_mem_nil, fun _ _ => rfl⟩,
        fun _ hmem => absurd hmem List.not_mem_nil⟩
  | cons item items ih =>
      rw [replaceInstanceItems] at h
      split at h
      · cases h
      split at h
      · cases h
      rename_i hdup
      simp only at h
      split at h
      · cases h
      obtain ⟨hinstalled, hnew⟩ := ih h
      have hne : ∀ other ∈ items, other.sequenceId ≠ item.sequenceId := by
        intro other hother heq
        have hfind := hnew other hother
        rw [heq, find_put_self] at hfind
        cases hfind
      refine ⟨hinstalled.cons hne, fun other hother => ?_⟩
      rcases List.mem_cons.mp hother with rfl | hrest
      · simpa using hdup
      · have hfind := hnew other hrest
        rwa [find_put_of_ne fun hkey => hne other hrest (scopedKey_inj hkey)] at hfind

/-- Publishing a snapshot drops the project's other entries. -/
theorem Installed.carryOver {project : ProjectId} {items : List RuntimeInstanceConfig}
    {old built : Table String RuntimeInstanceConfig}
    (h : Installed project items false KeyedTable.empty built) :
    Installed project items true old (carryOver project old built) where
  written := by
    intro item hitem
    rw [Registry.carryOver, find_adopt, h.written item hitem]
    rfl
  others := by
    intro key hkey
    rw [Registry.carryOver, find_adopt, h.others key hkey]
    show (if (!hasPrefix (scopePrefix project) key) = true then old.find key else none) = _
    cases hasPrefix (scopePrefix project) key <;> rfl

/-- An operation on a table of referring objects stores only what it has checked, and
    keeps nothing that was not there. -/
def Stores {ν : Type} (good : ν → Prop) (old new : Table String ν) : Prop :=
  ∀ key config, new.find key = some config → old.find key = some config ∨ good config

/-- Storing a good value. -/
theorem stores_put {ν : Type} {good : ν → Prop} {old new : Table String ν} {key : String}
    {config : ν} (hgood : good config) (h : Stores good (put key config old) new) :
    Stores good old new := by
  intro k c hfind
  rcases h k c hfind with hput | hgood'
  · rw [find_put] at hput
    by_cases hk : k = key
    · rw [if_pos hk] at hput
      rw [← Option.some.inj hput]
      exact Or.inr hgood
    · rw [if_neg hk] at hput
      exact Or.inl hput
  · exact Or.inr hgood'

theorem stores_refl {ν : Type} {good : ν → Prop} (table : Table String ν) :
    Stores good table table :=
  fun _ _ => Or.inl

/-- Carrying values over. -/
theorem stores_carryOver {ν : Type} {good : ν → Prop} {project : ProjectId}
    {old built : Table String ν} (h : Stores good KeyedTable.empty built) :
    Stores good old (carryOver project old built) := by
  intro key config hfind
  rw [Registry.carryOver, find_adopt, Option.or_eq_some_iff] at hfind
  rcases hfind with hnew | ⟨-, hold⟩
  · exact Or.inr ((h key config hnew).resolve_left fun hempty => by cases hempty)
  · left
    by_cases hkeep : (!hasPrefix (scopePrefix project) key) = true
    · rwa [if_pos hkeep] at hold
    · rw [if_neg hkeep] at hold
      cases hold

/-- A constraint whose mapping was checked against the instances of a project. -/
def MappedIn (registry : RuntimeConfigRegistry) (project : ProjectId)
    (config : RuntimeConstraintConfig) : Prop :=
  config.projectId = project ∧ ∀ variableName sequenceId,
    config.rule.variableMapping.find variableName = some sequenceId →
      (findInstance project sequenceId registry).isSome = true

/-- The variables of a known rule are mapped to instances. -/
theorem mapped_of_known {project : ProjectId} {rule : ConstraintRule}
    {registry : RuntimeConfigRegistry} (h : unknownSequence project rule registry = none)
    {variableName : String} {sequenceId : SequenceId}
    (hfind : rule.variableMapping.find variableName = some sequenceId) :
    (findInstance project sequenceId registry).isSome = true := by
  have hkey : variableName ∈ rule.variableMapping.keys :=
    (rule.variableMapping.mem_keys _).mpr (by rw [hfind]; rfl)
  have hnone := List.findSome?_eq_none_iff.mp h variableName hkey
  simp only [hfind, Option.getD_some] at hnone
  cases hinstance : findInstance project sequenceId registry with
  | none => simp [hinstance] at hnone
  | some config => rfl

/-- An upsert stores rules whose sequences are known. -/
theorem upsertConstraintItems_stores {project : ProjectId} {registry : RuntimeConfigRegistry}
    {items : List RuntimeConstraintConfig} {seen : List String}
    {constraints out : Table String RuntimeConstraintConfig}
    (h : upsertConstraintItems project registry items seen constraints = .ok out) :
    Stores (MappedIn registry project) constraints out := by
  induction items generalizing seen constraints with
  | nil =>
      cases h
      exact stores_refl _
  | cons item items ih =>
      rw [upsertConstraintItems] at h
      split at h
      · cases h
      cases hvalid : validateConstraintRule item.rule with
      | error error =>
          rw [hvalid] at h
          cases h
      | ok properties =>
          rw [hvalid] at h
          cases hknown : unknownSequence project item.rule registry with
          | some error =>
              rw [hknown] at h
              cases h
          | none =>
              rw [hknown] at h
              have hgood : MappedIn registry project { item with projectId := project } :=
                ⟨rfl, fun _ _ hfind => mapped_of_known hknown hfind⟩
              exact stores_put hgood (ih h)

/-- A replacement stores rules whose sequences are known. -/
theorem replaceConstraintItems_stores {project : ProjectId} {registry : RuntimeConfigRegistry}
    {items : List RuntimeConstraintConfig} {constraints out : Table String RuntimeConstraintConfig}
    (h : replaceConstraintItems project registry items constraints = .ok out) :
    Stores (MappedIn registry project) constraints out := by
  induction items generalizing constraints with
  | nil =>
      cases h
      exact stores_refl _
  | cons item items ih =>
      rw [replaceConstraintItems] at h
      cases hvalid : validateConstraintRule item.rule with
      | error error =>
          rw [hvalid] at h
          cases h
      | ok properties =>
          rw [hvalid] at h
          cases hknown : unknownSequence project item.rule registry with
          | some error =>
              rw [hknown] at h
              cases h
          | none =>
              rw [hknown] at h
              simp only at h
              split at h
              · cases h
              have hgood : MappedIn registry project { item with projectId := project } :=
                ⟨rfl, fun _ _ hfind => mapped_of_known hknown hfind⟩
              exact stores_put hgood (ih h)

/-- A formula that was checked against the instances of a project. -/
def ValidIn (registry : RuntimeConfigRegistry) (project : ProjectId)
    (config : RuntimeDerivedSeriesConfig) : Prop :=
  config.projectId = project ∧
    validateDerivedConfig (projectConfigs project registry.instanceConfigs) config = none

/-- An upsert stores series that pass their checks. -/
theorem upsertDerivedItems_stores {project : ProjectId} {registry : RuntimeConfigRegistry}
    {items : List RuntimeDerivedSeriesConfig} {seen : List SequenceId}
    {derivedSeries out : Table String RuntimeDerivedSeriesConfig}
    (h : upsertDerivedItems project (projectConfigs project registry.instanceConfigs) items seen
      derivedSeries = .ok out) :
    Stores (ValidIn registry project) derivedSeries out := by
  induction items generalizing seen derivedSeries with
  | nil =>
      cases h
      exact stores_refl _
  | cons item items ih =>
      rw [upsertDerivedItems] at h
      split at h
      · cases h
      cases hvalid : validateDerivedConfig (projectConfigs project registry.instanceConfigs)
          item with
      | some error =>
          rw [hvalid] at h
          cases h
      | none =>
          rw [hvalid] at h
          have hgood : ValidIn registry project { item with projectId := project } :=
            ⟨rfl, hvalid⟩
          exact stores_put hgood (ih h)

/-! ## The check reads the sources only -/

/-- An expression passes again while its sources are numeric. -/
theorem validateDerivedExpression_of_sources {instances instances' : List RuntimeInstanceConfig}
    {expression : DerivedExpression} (h : validateDerivedExpression instances expression = none)
    {seen : List SequenceId}
    (hnum : ∀ s ∈ collectSources expression seen, numericInstance instances' s = true) :
    validateDerivedExpression instances' expression = none := by
  induction expression generalizing seen with
  | sequence sequenceId =>
      have hself := hnum sequenceId ((mem_pushUnique sequenceId sequenceId seen).mpr (Or.inl rfl))
      rw [validateDerivedExpression] at h ⊢
      by_cases hempty : sequenceId.isEmpty = true
      · rw [if_pos hempty] at h
        cases h
      · rw [if_neg hempty, hself]
        rfl
  | constant value => exact h
  | binary operation left right ihl ihr =>
      rw [validateDerivedExpression] at h ⊢
      by_cases hincomplete : (!validDerivedOperator operation || decide (left = .missing) ||
          decide (right = .missing)) = true
      · rw [if_pos hincomplete] at h
        cases h
      · rw [if_neg hincomplete] at h ⊢
        cases hl : validateDerivedExpression instances left with
        | some error =>
            rw [hl] at h
            cases h
        | none =>
            rw [hl] at h
            have hleft := ihl hl fun s hs => hnum s (mem_collectSources right hs)
            have hright := ihr h hnum
            rw [hleft]
            exact hright
  | missing => exact h

/-- Linear terms pass again while their sources are numeric. -/
theorem validateLinearTerms_of_sources {instances instances' : List RuntimeInstanceConfig}
    {terms : List DerivedLinearTerm} {seen : List SequenceId}
    (h : validateLinearTerms instances terms seen = none)
    (hnum : ∀ term ∈ terms, numericInstance instances' term.sequenceId = true) :
    validateLinearTerms instances' terms seen = none := by
  induction terms generalizing seen with
  | nil => rfl
  | cons term terms ih =>
      rw [validateLinearTerms] at h ⊢
      by_cases hinvalid : (term.sequenceId.isEmpty || !isFinite term.coefficient) = true
      · rw [if_pos hinvalid] at h
        cases h
      rw [if_neg hinvalid] at h ⊢
      rw [hnum term (List.mem_cons_self ..)]
      by_cases hnumeric : (!numericInstance instances term.sequenceId) = true
      · rw [if_pos hnumeric] at h
        cases h
      rw [if_neg hnumeric] at h
      rw [Bool.not_true, if_neg Bool.false_ne_true]
      by_cases hseen : term.sequenceId ∈ seen
      · rw [if_pos hseen] at h
        cases h
      rw [if_neg hseen] at h ⊢
      exact ih h fun other hother => hnum other (List.mem_cons_of_mem _ hother)

/-- A formula that passes its checks still does where its sources are numeric and its
    own sequence is no instance. -/
theorem validateDerivedConfig_of_sources {instances instances' : List RuntimeInstanceConfig}
    {config : RuntimeDerivedSeriesConfig} (h : validateDerivedConfig instances config = none)
    (hplain : ∀ c ∈ instances', c.sequenceId ≠ config.derivedSequenceId)
    (hnum : ∀ s ∈ sourcesFor config, numericInstance instances' s = true) :
    validateDerivedConfig instances' config = none := by
  rw [validateDerivedConfig] at h ⊢
  by_cases hempty : config.derivedSequenceId.isEmpty = true
  · rw [if_pos hempty] at h
    cases h
  rw [if_neg hempty] at h ⊢
  by_cases hconflict : (instances.any fun c => c.sequenceId = config.derivedSequenceId) = true
  · rw [if_pos hconflict] at h
    cases h
  have hplain' : ¬ (instances'.any fun c => c.sequenceId = config.derivedSequenceId) = true := by
    intro hany
    obtain ⟨c, hc, heq⟩ := List.any_eq_true.mp hany
    exact hplain c hc (of_decide_eq_true heq)
  rw [if_neg hconflict] at h
  rw [if_neg hplain']
  cases hf : config.formula with
  | linear combination =>
      rw [hf] at h
      simp only at h ⊢
      by_cases hterms : (combination.terms.isEmpty || !isFinite combination.bias) = true
      · rw [if_pos hterms] at h
        cases h
      · rw [if_neg hterms] at h ⊢
        exact validateLinearTerms_of_sources h fun term hterm =>
          hnum _ ((mem_sourcesFor_linear hf _).mpr ⟨term, hterm, rfl⟩)
  | expression expression =>
      rw [hf] at h
      simp only at h ⊢
      by_cases hleaf : (!containsSequenceLeaf expression) = true
      · rw [if_pos hleaf] at h
        cases h
      · rw [if_neg hleaf] at h ⊢
        refine @validateDerivedExpression_of_sources _ _ _ h [] fun s hs => hnum s ?_
        rw [sourcesFor, hf]
        exact hs

/-! ## One instance operation -/

/-- The project's own instances are the items and, in an upsert, the old ones. -/
theorem Installed.own {project : ProjectId} {items : List RuntimeInstanceConfig} {dropping : Bool}
    {old new : Table String RuntimeInstanceConfig} (h : Installed project items dropping old new)
    (s : SequenceId) :
    (∃ item ∈ items, item.sequenceId = s ∧
        new.find (scopedKey project s) = some { item with projectId := project }) ∨
      (∀ item ∈ items, item.sequenceId ≠ s) ∧
        new.find (scopedKey project s) =
          if dropping then none else old.find (scopedKey project s) := by
  by_cases hitem : ∃ item ∈ items, item.sequenceId = s
  · obtain ⟨item, hmem, rfl⟩ := hitem
    exact Or.inl ⟨item, hmem, rfl, h.written item hmem⟩
  · have hnone : ∀ item ∈ items, item.sequenceId ≠ s := fun item hmem heq =>
      hitem ⟨item, hmem, heq⟩
    refine Or.inr ⟨hnone, ?_⟩
    rw [h.others _ fun item hmem hkey => hnone item hmem (scopedKey_inj hkey), sees_own,
      Bool.and_true]

/-- Another project's instances are untouched. -/
theorem Installed.elsewhere {project q : ProjectId} {items : List RuntimeInstanceConfig}
    {dropping : Bool} {old new : Table String RuntimeInstanceConfig}
    (h : Installed project items dropping old new) (hapart : Apart project q) (hne : q ≠ project)
    (s : SequenceId) : new.find (scopedKey q s) = old.find (scopedKey q s) := by
  have hsees : ¬ hasPrefix (scopePrefix project) (scopedKey q s) = true := fun hpre =>
    hne (project_of_seen hapart hpre).symm
  rw [h.others (scopedKey q s) fun item _ hkey => hne (project_of_key hapart hkey).symm,
    Bool.eq_false_iff.mpr hsees, Bool.and_false]
  rfl

section Installing

variable {used : ProjectId → Prop} (hsep : ∀ p q, used p → used q → Apart p q)
  {registry : RuntimeConfigRegistry} (hfiled : Filed used registry) {project : ProjectId}
  (hp : used project) {items : List RuntimeInstanceConfig} {dropping : Bool}
  {instances : Table String RuntimeInstanceConfig} {external : Table String SequenceId}
  (hinstalled : Installed project items dropping registry.instanceConfigs instances)

include hfiled hp hinstalled

/-- Installing instances keeps the registry filed. -/
theorem filed_of_installed :
    Filed used { registry with
      instanceConfigs := instances
      externalSequenceIndex := external } where
  instances := by
    intro key config hfind
    by_cases hitem : ∃ item ∈ items, scopedKey project item.sequenceId = key
    · obtain ⟨item, hmem, rfl⟩ := hitem
      have hwritten := (hinstalled.written item hmem).symm.trans hfind
      rw [← Option.some.inj hwritten]
      exact ⟨hp, rfl⟩
    · have hother := hinstalled.others key fun item hmem hkey => hitem ⟨item, hmem, hkey⟩
      rw [show instances.find key = some config from hfind] at hother
      by_cases hdrop : (dropping && hasPrefix (scopePrefix project) key) = true
      · rw [if_pos hdrop] at hother
        cases hother
      · rw [if_neg hdrop] at hother
        exact hfiled.instances key config hother.symm
  constraints := hfiled.constraints
  derived := hfiled.derived

include hsep

/-- Where the references hold afterwards, the operation brought along what they need. -/
theorem keeps_of_references
    (hafter : References { registry with
      instanceConfigs := instances
      externalSequenceIndex := external }) :
    KeepsReferences registry project items dropping := by
  have hfiled' : Filed used { registry with
      instanceConfigs := instances
      externalSequenceIndex := external } := filed_of_installed hfiled hp hinstalled
  -- a source stands in the table afterwards, and is numeric
  have hfound : ∀ key config, registry.derivedSeries.find key = some config →
      config.projectId = project → ∀ s ∈ sourcesFor config,
        ∃ found, instances.find (scopedKey project s) = some found ∧
          continuousNumeric found = true := by
    intro key config hfind hproject s hs
    have hvalid := hafter.derived key config hfind
    rw [hproject] at hvalid
    obtain ⟨-, -, -, hsources⟩ := accepted_sources hvalid
    exact (numericInstance_iff hsep hfiled' hp s).mp (hsources s hs).2
  refine ⟨?_, ?_, ?_, ?_⟩
  · intro hdrop key config hfind hproject variableName sequenceId hmap
    have hsome := hafter.mapped key config hfind variableName sequenceId hmap
    rw [hproject] at hsome
    rcases hinstalled.own sequenceId with ⟨item, hmem, heq, -⟩ | ⟨-, hnone⟩
    · exact ⟨item, hmem, heq⟩
    · rw [hdrop, if_pos rfl] at hnone
      exact absurd hsome (by simp [findInstance, hnone])
  · intro hdrop key config hfind hproject s hs
    obtain ⟨found, hsome, -⟩ := hfound key config hfind hproject s hs
    rcases hinstalled.own s with ⟨item, hmem, heq, -⟩ | ⟨-, hnone⟩
    · exact ⟨item, hmem, heq⟩
    · rw [hdrop, if_pos rfl, hsome] at hnone
      cases hnone
  · intro key config hfind hproject s hs item hmem heq
    obtain ⟨found, hsome, hnumeric⟩ := hfound key config hfind hproject s hs
    have hwritten := hinstalled.written item hmem
    rw [heq, hsome] at hwritten
    rw [Option.some.inj hwritten] at hnumeric
    exact hnumeric
  · intro key config hfind hproject item hmem heq
    have hvalid := hafter.derived key config hfind
    rw [hproject] at hvalid
    obtain ⟨-, hplain, -, -⟩ := accepted_sources hvalid
    have hseen := (mem_projectConfigs hsep hfiled' hp { item with projectId := project }).mpr
      (hinstalled.written item hmem)
    exact hplain _ hseen heq

/-- A constraint's sequences are still there. -/
theorem mapped_of_keeps (hrefs : References registry)
    (hkeeps : KeepsReferences registry project items dropping) {key : String}
    {config : RuntimeConstraintConfig} (hfind : registry.constraints.find key = some config)
    {variableName : String} {sequenceId : SequenceId}
    (hmap : config.rule.variableMapping.find variableName = some sequenceId) :
    (instances.find (scopedKey config.projectId sequenceId)).isSome = true := by
  have hbefore := hrefs.mapped key config hfind variableName sequenceId hmap
  by_cases hproject : config.projectId = project
  · rw [hproject] at hbefore ⊢
    rcases hinstalled.own sequenceId with ⟨item, -, -, hsome⟩ | ⟨hnone, hother⟩
    · rw [hsome]
      rfl
    · cases hdrop : dropping with
      | true =>
          obtain ⟨item, hmem, heq⟩ :=
            hkeeps.mapped hdrop key config hfind hproject variableName sequenceId hmap
          exact absurd heq (hnone item hmem)
      | false =>
          rw [hother, hdrop]
          exact hbefore
  · rw [hinstalled.elsewhere (hsep _ _ hp (hfiled.constraints key config hfind)) hproject]
    exact hbefore

/-- A formula's own sequence is still no instance, and its sources still are numeric. -/
theorem valid_of_keeps (hrefs : References registry)
    (hkeeps : KeepsReferences registry project items dropping) {key : String}
    {config : RuntimeDerivedSeriesConfig} (hfind : registry.derivedSeries.find key = some config) :
    validateDerivedConfig (projectConfigs config.projectId instances) config = none := by
  have hfiled' : Filed used { registry with instanceConfigs := instances } :=
    filed_of_installed hfiled hp hinstalled
  have hused := hfiled.derived key config hfind
  have hapart := hsep _ _ hp hused
  have hbefore := hrefs.derived key config hfind
  obtain ⟨-, hplain, -, hsources⟩ := accepted_sources hbefore
  refine validateDerivedConfig_of_sources hbefore ?_ ?_
  · intro c hc heq
    have hsome := (mem_projectConfigs hsep hfiled' hused c).mp hc
    have hold : registry.instanceConfigs.find (scopedKey config.projectId c.sequenceId) ≠
        some c :=
      fun h => hplain c ((mem_projectConfigs hsep hfiled hused c).mpr h) heq
    by_cases hproject : config.projectId = project
    · rw [hproject] at hsome hold
      rcases hinstalled.own c.sequenceId with ⟨item, hmem, hitem, -⟩ | ⟨-, hother⟩
      · exact hkeeps.fresh key config hfind hproject item hmem (hitem.trans heq)
      · rw [show instances.find (scopedKey project c.sequenceId) = some c from hsome] at hother
        cases hdrop : dropping with
        | true =>
            rw [hdrop] at hother
            cases hother
        | false =>
            rw [hdrop] at hother
            exact hold hother.symm
    · exact hold ((hinstalled.elsewhere hapart hproject c.sequenceId).symm.trans hsome)
  · intro s hs
    obtain ⟨found, hsome, hnumeric⟩ :=
      (numericInstance_iff hsep hfiled hused s).mp (hsources s hs).2
    refine (numericInstance_iff hsep hfiled' hused s).mpr ?_
    show ∃ c, instances.find (scopedKey config.projectId s) = some c ∧ _
    by_cases hproject : config.projectId = project
    · rw [hproject] at hsome ⊢
      rcases hinstalled.own s with ⟨item, hmem, hitem, hwritten⟩ | ⟨hnone, hother⟩
      · exact ⟨_, hwritten, hkeeps.numeric key config hfind hproject s hs item hmem hitem⟩
      · cases hdrop : dropping with
        | true =>
            obtain ⟨item, hmem, hitem⟩ := hkeeps.sources hdrop key config hfind hproject s hs
            exact absurd hitem (hnone item hmem)
        | false =>
            rw [hdrop] at hother
            exact ⟨found, hother.trans hsome, hnumeric⟩
    · exact ⟨found, (hinstalled.elsewhere hapart hproject s).trans hsome, hnumeric⟩

/-- References that held before hold afterwards exactly when the operation brings
    along what they need. -/
theorem references_installed (hrefs : References registry) :
    References { registry with
      instanceConfigs := instances
      externalSequenceIndex := external } ↔
      KeepsReferences registry project items dropping :=
  ⟨fun hafter => keeps_of_references hsep hfiled hp hinstalled hafter, fun hkeeps =>
    ⟨fun _ _ hfind _ _ hmap => mapped_of_keeps hsep hfiled hp hinstalled hrefs hkeeps hfind hmap,
      fun _ _ hfind => valid_of_keeps hsep hfiled hp hinstalled hrefs hkeeps hfind⟩⟩

end Installing

/-! ## Runs -/

section Runs

variable {used : ProjectId → Prop} (hsep : ∀ p q, used p → used q → Apart p q)

/-- An accepted instance operation and its table, or nothing happened. -/
theorem perform_replaceInstances (registry : RuntimeConfigRegistry) (projectId : ProjectId)
    (items : List RuntimeInstanceConfig) :
    (∃ instances external,
        Installed (snapshotProject projectId) items true registry.instanceConfigs instances ∧
        after registry (.replaceInstances projectId items) =
          { registry with instanceConfigs := instances, externalSequenceIndex := external } ∧
        accepted registry (.replaceInstances projectId items) = true) ∨
      after registry (.replaceInstances projectId items) = registry ∧
        accepted registry (.replaceInstances projectId items) = false := by
  simp only [after, accepted, perform, replaceInstanceConfigs]
  cases h : replaceInstanceItems (snapshotProject projectId) items
      ⟨KeyedTable.empty, KeyedTable.empty⟩ with
  | error message => exact Or.inr ⟨rfl, rfl⟩
  | ok indexes =>
      exact Or.inl ⟨_, _, (replaceInstanceItems_installed h).1.carryOver, rfl, rfl⟩

/-- An upsert of instances installs them, or fails. -/
theorem perform_upsertInstances (registry : RuntimeConfigRegistry) (projectId : ProjectId)
    (items : List RuntimeInstanceConfig) :
    (∃ instances external,
        Installed (snapshotProject projectId) items false registry.instanceConfigs instances ∧
        after registry (.upsertInstances projectId items) =
          { registry with instanceConfigs := instances, externalSequenceIndex := external } ∧
        accepted registry (.upsertInstances projectId items) = true) ∨
      after registry (.upsertInstances projectId items) = registry ∧
        accepted registry (.upsertInstances projectId items) = false := by
  simp only [after, accepted, perform, upsertInstanceConfigs]
  cases h : upsertInstanceItems (snapshotProject projectId) items []
      ⟨registry.instanceConfigs, registry.externalSequenceIndex⟩ with
  | error message => exact Or.inr ⟨rfl, rfl⟩
  | ok indexes => exact Or.inl ⟨_, _, (upsertInstanceItems_installed h).1, rfl, rfl⟩

/-- A replacement of rules, as what it stores. -/
theorem after_replaceConstraints (registry : RuntimeConfigRegistry) (projectId : ProjectId)
    (items : List RuntimeConstraintConfig) :
    ∃ constraints, Stores (MappedIn registry (snapshotProject projectId)) registry.constraints
        constraints ∧
      after registry (.replaceConstraints projectId items) =
        { registry with constraints := constraints } := by
  simp only [after, perform, Registry.replaceConstraints]
  cases h : replaceConstraintItems (snapshotProject projectId) registry items
      KeyedTable.empty with
  | error message => exact ⟨_, stores_refl _, rfl⟩
  | ok constraints => exact ⟨_, stores_carryOver (replaceConstraintItems_stores h), rfl⟩

/-- An upsert of rules, as what it stores. -/
theorem after_upsertConstraints (registry : RuntimeConfigRegistry) (projectId : ProjectId)
    (items : List RuntimeConstraintConfig) :
    ∃ constraints, Stores (MappedIn registry (snapshotProject projectId)) registry.constraints
        constraints ∧
      after registry (.upsertConstraints projectId items) =
        { registry with constraints := constraints } := by
  simp only [after, perform, Registry.upsertConstraints]
  cases h : upsertConstraintItems (snapshotProject projectId) registry items []
      registry.constraints with
  | error message => exact ⟨_, stores_refl _, rfl⟩
  | ok constraints => exact ⟨_, upsertConstraintItems_stores h, rfl⟩

/-- An upsert of derived series, as what it stores. -/
theorem after_upsertDerivedSeries (registry : RuntimeConfigRegistry) (projectId : ProjectId)
    (items : List RuntimeDerivedSeriesConfig) :
    ∃ derivedSeries, Stores (ValidIn registry (snapshotProject projectId)) registry.derivedSeries
        derivedSeries ∧
      after registry (.upsertDerivedSeries projectId items) =
        { registry with derivedSeries := derivedSeries } := by
  simp only [after, perform, upsertDerivedSeriesConfigs]
  cases h : upsertDerivedItems (snapshotProject projectId)
      (projectConfigs (snapshotProject projectId) registry.instanceConfigs) items []
      registry.derivedSeries with
  | error message => exact ⟨_, stores_refl _, rfl⟩
  | ok derivedSeries => exact ⟨_, upsertDerivedItems_stores h, rfl⟩

/-- Storing checked constraints keeps the references. -/
theorem references_constraints {registry : RuntimeConfigRegistry} {project : ProjectId}
    {constraints : Table String RuntimeConstraintConfig}
    (h : Stores (MappedIn registry project) registry.constraints constraints)
    (hrefs : References registry) : References { registry with constraints := constraints } where
  mapped := by
    intro key config hfind variableName sequenceId hmap
    rcases h key config hfind with hold | ⟨hproject, hmapped⟩
    · exact hrefs.mapped key config hold variableName sequenceId hmap
    · rw [hproject]
      exact hmapped variableName sequenceId hmap
  derived := hrefs.derived

/-- Storing checked formulas keeps the references. -/
theorem references_derived {registry : RuntimeConfigRegistry} {project : ProjectId}
    {derivedSeries : Table String RuntimeDerivedSeriesConfig}
    (h : Stores (ValidIn registry project) registry.derivedSeries derivedSeries)
    (hrefs : References registry) :
    References { registry with derivedSeries := derivedSeries } where
  mapped := hrefs.mapped
  derived := by
    intro key config hfind
    rcases h key config hfind with hold | ⟨hproject, hvalid⟩
    · exact hrefs.derived key config hold
    · rw [hproject]
      exact hvalid

/-- Every operation keeps the registry filed. -/
theorem filed_after {registry : RuntimeConfigRegistry} (hfiled : Filed used registry)
    (op : RegistryOp) (hp : used (opProject op)) : Filed used (after registry op) := by
  cases op with
  | replaceInstances projectId items =>
      rcases perform_replaceInstances registry projectId items with
        ⟨instances, external, hinstalled, heq, -⟩ | ⟨heq, -⟩
      · rw [heq]
        exact filed_of_installed hfiled hp hinstalled
      · rw [heq]
        exact hfiled
  | upsertInstances projectId items =>
      rcases perform_upsertInstances registry projectId items with
        ⟨instances, external, hinstalled, heq, -⟩ | ⟨heq, -⟩
      · rw [heq]
        exact filed_of_installed hfiled hp hinstalled
      · rw [heq]
        exact hfiled
  | replaceConstraints projectId items =>
      obtain ⟨constraints, hstores, heq⟩ := after_replaceConstraints registry projectId items
      rw [heq]
      refine ⟨hfiled.instances, fun key config hfind => ?_, hfiled.derived⟩
      rcases hstores key config hfind with hold | ⟨hproject, -⟩
      · exact hfiled.constraints key config hold
      · rw [hproject]
        exact hp
  | upsertConstraints projectId items =>
      obtain ⟨constraints, hstores, heq⟩ := after_upsertConstraints registry projectId items
      rw [heq]
      refine ⟨hfiled.instances, fun key config hfind => ?_, hfiled.derived⟩
      rcases hstores key config hfind with hold | ⟨hproject, -⟩
      · exact hfiled.constraints key config hold
      · rw [hproject]
        exact hp
  | upsertDerivedSeries projectId items =>
      obtain ⟨derivedSeries, hstores, heq⟩ := after_upsertDerivedSeries registry projectId items
      rw [heq]
      refine ⟨hfiled.instances, hfiled.constraints, fun key config hfind => ?_⟩
      rcases hstores key config hfind with hold | ⟨hproject, -⟩
      · exact hfiled.derived key config hold
      · rw [hproject]
        exact hp

include hsep

/-- One operation keeps the references exactly when it meets the condition. -/
theorem references_after {registry : RuntimeConfigRegistry} (hfiled : Filed used registry)
    (hrefs : References registry) (op : RegistryOp) (hp : used (opProject op)) :
    References (after registry op) ↔ Keeps registry op := by
  cases op with
  | replaceInstances projectId items =>
      rcases perform_replaceInstances registry projectId items with
        ⟨instances, external, hinstalled, heq, hok⟩ | ⟨heq, hrejected⟩
      · rw [heq, references_installed hsep hfiled hp hinstalled hrefs]
        exact ⟨fun h _ => h, fun h => h hok⟩
      · rw [heq]
        exact ⟨fun _ hok => absurd (hrejected.symm.trans hok) Bool.false_ne_true, fun _ => hrefs⟩
  | upsertInstances projectId items =>
      rcases perform_upsertInstances registry projectId items with
        ⟨instances, external, hinstalled, heq, hok⟩ | ⟨heq, hrejected⟩
      · rw [heq, references_installed hsep hfiled hp hinstalled hrefs]
        exact ⟨fun h _ => h, fun h => h hok⟩
      · rw [heq]
        exact ⟨fun _ hok => absurd (hrejected.symm.trans hok) Bool.false_ne_true, fun _ => hrefs⟩
  | replaceConstraints projectId items =>
      obtain ⟨constraints, hstores, heq⟩ := after_replaceConstraints registry projectId items
      rw [heq]
      exact ⟨fun _ _ => trivial, fun _ => references_constraints hstores hrefs⟩
  | upsertConstraints projectId items =>
      obtain ⟨constraints, hstores, heq⟩ := after_upsertConstraints registry projectId items
      rw [heq]
      exact ⟨fun _ _ => trivial, fun _ => references_constraints hstores hrefs⟩
  | upsertDerivedSeries projectId items =>
      obtain ⟨derivedSeries, hstores, heq⟩ := after_upsertDerivedSeries registry projectId items
      rw [heq]
      exact ⟨fun _ _ => trivial, fun _ => references_derived hstores hrefs⟩

/-- The references hold throughout a run when every step keeps them. -/
theorem references_run {registry : RuntimeConfigRegistry} (hfiled : Filed used registry)
    (hrefs : References registry) {ops : List RegistryOp} (hused : ∀ op ∈ ops, used (opProject op)) :
    (∀ n, References (run after registry (ops.take n))) ↔ Admissible after Keeps registry ops := by
  induction ops generalizing registry with
  | nil => exact ⟨fun _ => trivial, fun _ _ => by rw [List.take_nil]; exact hrefs⟩
  | cons op ops ih =>
      have hop := hused op (List.mem_cons_self ..)
      have hfiled' := filed_after hfiled op hop
      have hstep := references_after hsep hfiled hrefs op hop
      have hrest := fun other hother => hused other (List.mem_cons_of_mem op hother)
      constructor
      · intro hall
        have hafter : References (after registry op) := hall 1
        exact ⟨hstep.mp hafter, (ih hfiled' hafter hrest).mp fun n => hall (n + 1)⟩
      · rintro ⟨hkeeps, hadmissible⟩ n
        have hafter := hstep.mpr hkeeps
        cases n with
        | zero => exact hrefs
        | succ n => exact (ih hfiled' hafter hrest).mpr hadmissible n

end Runs

theorem references_empty : References {} where
  mapped := fun _ _ h => by cases h
  derived := fun _ _ h => by cases h

/-- **Referential integrity.**  In a run over projects whose keys do not overlap,
    every stored reference is valid in every state exactly when every accepted
    instance operation keeps what the stored constraints and formulas mention. -/
theorem references_iff (ops : List RegistryOp)
    (hapart : ∀ a ∈ ops, ∀ b ∈ ops, Apart (opProject a) (opProject b)) :
    (∀ n, References (run after {} (ops.take n))) ↔ Admissible after Keeps {} ops :=
  @references_run (fun p => ∃ op ∈ ops, opProject op = p)
    (fun p q ⟨a, ha, hpa⟩ ⟨b, hb, hqb⟩ => by
      rw [← hpa, ← hqb]
      exact hapart a ha b hb)
    {} (filed_empty _) references_empty ops fun op hop => ⟨op, hop, rfl⟩

/-! ## Two ways to lose a reference -/

/-- An instance whose points are numbers. -/
private def meter (id : SequenceId) : RuntimeInstanceConfig :=
  { sequenceId := id
    dataSourceId := "d"
    externalSequenceId := id
    dataType := "double"
    seriesKind := .continuous }

/-- A bound on `s`. -/
private def limitRule : RuntimeConstraintConfig :=
  { rule :=
      { constraintId := "limit"
        variableMapping := put "x" "s" KeyedTable.empty
        upperBound := some (.finite 60)
        terms :=
          [{ variableName := "x", coefficient := .finite 1, sampleOffset_le := offset_zero_le }] }
    enabled := true }

/-- Twice the values of `s`. -/
private def doubled : RuntimeDerivedSeriesConfig :=
  { derivedSequenceId := "twice"
    enabled := true
    formula := .linear
      { terms := [{ sequenceId := "s", coefficient := .finite 2 }]
        bias := .finite 0 } }

/-- The instance a rule maps is replaced away. -/
private def droppedInstance : List RegistryOp :=
  [.upsertInstances "p" [meter "s"], .upsertConstraints "p" [limitRule], .replaceInstances "p" []]

/-- An instance takes the id of a derived sequence. -/
private def clashingInstance : List RegistryOp :=
  [.upsertInstances "p" [meter "s"], .upsertDerivedSeries "p" [doubled],
    .upsertInstances "p" [meter "twice"]]

/-- A run that keeps its references: the replacement brings the mapped instance along. -/
private def renewedInstance : List RegistryOp :=
  [.upsertInstances "p" [meter "s"], .upsertConstraints "p" [limitRule],
    .replaceInstances "p" [meter "t", meter "s"]]

/-- An instance renewed under its id. -/
theorem references_iff_renewed :
    (∀ n, References (run after {} (renewedInstance.take n))) ↔
      Admissible after Keeps {} renewedInstance :=
  references_iff renewedInstance (by decide +kernel)

/-- An instance dropped, and one that takes the id of a derived sequence. -/
theorem references_lost :
    ¬ References (run after {} droppedInstance) ∧ ¬ References (run after {} clashingInstance) := by
  constructor
  · intro hrefs
    obtain ⟨config, hfind⟩ : ∃ config,
        (run after {} droppedInstance).constraints.find (scopedKey "p" "limit") = some config :=
      Option.isSome_iff_exists.mp (by decide +kernel)
    have hread : ((run after {} droppedInstance).constraints.find (scopedKey "p" "limit")).map
        (fun c => (c.projectId, c.rule.variableMapping.find "x")) = some ("p", some "s") := by
      decide +kernel
    rw [hfind] at hread
    obtain ⟨hproject, hmap⟩ := Prod.mk.inj (Option.some.inj hread)
    have hsome := hrefs.mapped _ config hfind "x" "s" hmap
    rw [show config.projectId = "p" from hproject] at hsome
    exact absurd hsome (by decide +kernel)
  · intro hrefs
    have hfind : (run after {} clashingInstance).derivedSeries.find (scopedKey "p" "twice") =
        some { doubled with projectId := "p" } := by
      decide +kernel
    have hvalid := hrefs.derived _ _ hfind
    exact absurd hvalid (by decide +kernel)

end RegistryReferences
