import Mathlib.Data.String.Basic
import TimeSeriesEngine.ConstraintCheck

/-!
# The runtime configuration registry

`runtime_config_registry.cpp`: instances, constraint rules, derived formulas and
relations, each under a key that starts with the project.  An upsert checks every item
against the copy it has built so far and publishes the copy only when all items
pass; the first bad item leaves the registry as it was.

A replacement builds its snapshot on its own and publishes it together with the
entries of all other projects, which it selects by key prefix.

The bulk reads (`allEnabledConstraints`, `allDerivedSeries`) select by key
prefix and sort by id.
-/

namespace Registry

open TseTypes KeyedTable OrderedSeries ConstraintCheck

/-- `SeriesKind`. -/
inductive SeriesKind where
  | unspecified
  | continuous
  | discrete
  | categorical
  deriving DecidableEq

/-- An instance: a sequence, and where its points come from. -/
structure RuntimeInstanceConfig where
  sequenceId : SequenceId
  dataSourceId : String
  externalSequenceId : String
  dataType : String := ""
  seriesKind : SeriesKind := .unspecified
  projectId : ProjectId := ""
  deriving DecidableEq

/-- A stored rule. -/
structure RuntimeConstraintConfig where
  rule : ConstraintRule
  enabled : Bool := false
  projectId : ProjectId := ""

/-- `DerivedOperator`. -/
inductive DerivedOperator where
  | unspecified
  | add
  | subtract
  | multiply
  | divide
  deriving DecidableEq

/-- An expression tree; `missing` is a null child pointer. -/
inductive DerivedExpression where
  | sequence (sequenceId : SequenceId)
  | constant (value : Double)
  | binary (operation : DerivedOperator) (left right : DerivedExpression)
  | missing
  deriving DecidableEq

/-- A source and its factor. -/
structure DerivedLinearTerm where
  sequenceId : SequenceId
  coefficient : Double
  deriving DecidableEq

/-- A sum of factors of sources, and a constant. -/
structure DerivedLinearCombination where
  terms : List DerivedLinearTerm
  bias : Double
  deriving DecidableEq

/-- What a derived series is computed by. -/
inductive DerivedFormula where
  | linear (combination : DerivedLinearCombination)
  | expression (expression : DerivedExpression)
  deriving DecidableEq

/-- A derived series and its formula. -/
structure RuntimeDerivedSeriesConfig where
  derivedSequenceId : SequenceId
  enabled : Bool := false
  formula : DerivedFormula
  projectId : ProjectId := ""
  deriving DecidableEq

/-- No lag constraint, one fixed lag, or a range. -/
inductive RelationLagSpec where
  | unset
  | fixed (lag : Int)
  | range (min max : Int)
  deriving DecidableEq

/-- A source of a relation, with its lag. -/
structure RuntimeRelationSource where
  sourceSequenceId : SequenceId
  weight : Double
  lag : RelationLagSpec := .unset
  deriving DecidableEq

/-- What a target depends on. -/
structure RuntimeRelationConfig where
  relationId : String
  sources : List RuntimeRelationSource
  targetSequenceId : SequenceId
  relationType : String := ""
  confidence : Double
  enabled : Bool := false
  projectId : ProjectId := ""
  deriving DecidableEq

/-- The configurations of all projects, under scoped keys. -/
structure RuntimeConfigRegistry where
  instanceConfigs : Table String RuntimeInstanceConfig := KeyedTable.empty
  externalSequenceIndex : Table String SequenceId := KeyedTable.empty
  constraints : Table String RuntimeConstraintConfig := KeyedTable.empty
  derivedSeries : Table String RuntimeDerivedSeriesConfig := KeyedTable.empty
  relations : Table String RuntimeRelationConfig := KeyedTable.empty

/-! ## Keys -/

/-- `scopedKey`. -/
def scopedKey (projectId : ProjectId) (id : String) : String := scopePrefix projectId ++ id

/-- `externalKey`. -/
def externalKey (projectId : ProjectId) (dataSourceId externalSequenceId : String) : String :=
  scopePrefix projectId ++ dataSourceId ++ "\x1f" ++ externalSequenceId

/-- `snapshotProject`: an upsert without a project goes to the default one. -/
def snapshotProject (projectId : ProjectId) : ProjectId := effectiveProject projectId

/-- The configurations whose key starts with the project's prefix. -/
def projectConfigs {ν : Type} (projectId : ProjectId) (table : Table String ν) : List ν :=
  (table.keys.filter (hasPrefix (scopePrefix projectId))).filterMap table.find

/-- What a replacement publishes: the new entries and those of other projects. -/
def carryOver {ν : Type} (projectId : ProjectId) (old new : Table String ν) : Table String ν :=
  adopt (fun key => !hasPrefix (scopePrefix projectId) key) old new

/-! ## Instances -/

/-- The points of the instance are numbers on a continuous scale. -/
def continuousNumeric (config : RuntimeInstanceConfig) : Bool :=
  decide (config.seriesKind = .continuous) &&
    (["double", "float", "continuous", "int", "int64", "integer"].contains config.dataType)

/-- The two indexes an instance upsert works on. -/
structure InstanceIndexes where
  instances : Table String RuntimeInstanceConfig
  external : Table String SequenceId

/-- Drop the external key of the configuration an item replaces. -/
def releaseExternal (project : ProjectId) (item : RuntimeInstanceConfig)
    (indexes : InstanceIndexes) : Table String SequenceId :=
  match indexes.instances.find (scopedKey project item.sequenceId) with
  | none => indexes.external
  | some existing =>
      let oldKey := externalKey project existing.dataSourceId existing.externalSequenceId
      if indexes.external.find oldKey = some item.sequenceId then erase oldKey indexes.external
      else indexes.external

/-- The loop of `upsertInstanceConfigs`. -/
def upsertInstanceItems (project : ProjectId) :
    List RuntimeInstanceConfig → List SequenceId → InstanceIndexes →
      Except String InstanceIndexes
  | [], _, indexes => .ok indexes
  | item :: items, seen, indexes =>
      if item.sequenceId.isEmpty || item.dataSourceId.isEmpty ||
          item.externalSequenceId.isEmpty then
        .error "instance identifiers must not be empty"
      else if item.sequenceId ∈ seen then
        .error ("duplicate sequence_id in incremental update: " ++ item.sequenceId)
      else
        let external := releaseExternal project item indexes
        let newKey := externalKey project item.dataSourceId item.externalSequenceId
        if (external.find newKey).any (fun owner => decide (owner ≠ item.sequenceId)) then
          .error "duplicate external sequence identifier"
        else
          upsertInstanceItems project items (item.sequenceId :: seen)
            { instances :=
                put (scopedKey project item.sequenceId) { item with projectId := project }
                  indexes.instances
              external := put newKey item.sequenceId external }

/-- `upsertInstanceConfigs`. -/
def upsertInstanceConfigs (projectId : ProjectId) (items : List RuntimeInstanceConfig)
    (registry : RuntimeConfigRegistry) : RuntimeConfigRegistry × OperationResult :=
  match upsertInstanceItems (snapshotProject projectId) items []
      ⟨registry.instanceConfigs, registry.externalSequenceIndex⟩ with
  | .error message => (registry, invalidArgument message)
  | .ok indexes =>
      ({ registry with
          instanceConfigs := indexes.instances
          externalSequenceIndex := indexes.external },
        okResult items.length "instance configuration incrementally synchronized")

/-- The indexes of a snapshot, built on their own. -/
def replaceInstanceItems (project : ProjectId) :
    List RuntimeInstanceConfig → InstanceIndexes → Except String InstanceIndexes
  | [], indexes => .ok indexes
  | item :: items, indexes =>
      if item.sequenceId.isEmpty || item.dataSourceId.isEmpty ||
          item.externalSequenceId.isEmpty then
        .error "instance identifiers must not be empty"
      else if (indexes.instances.find (scopedKey project item.sequenceId)).isSome then
        .error ("duplicate sequence_id: " ++ item.sequenceId)
      else
        let key := externalKey project item.dataSourceId item.externalSequenceId
        if (indexes.external.find key).isSome then
          .error "duplicate external sequence identifier"
        else
          replaceInstanceItems project items
            { instances :=
                put (scopedKey project item.sequenceId) { item with projectId := project }
                  indexes.instances
              external := put key item.sequenceId indexes.external }

/-- `replaceInstanceConfigs`: the other projects stay. -/
def replaceInstanceConfigs (projectId : ProjectId) (items : List RuntimeInstanceConfig)
    (registry : RuntimeConfigRegistry) : RuntimeConfigRegistry × OperationResult :=
  let project := snapshotProject projectId
  match replaceInstanceItems project items ⟨KeyedTable.empty, KeyedTable.empty⟩ with
  | .error message => (registry, invalidArgument message)
  | .ok indexes =>
      ({ registry with
          instanceConfigs := carryOver project registry.instanceConfigs indexes.instances
          externalSequenceIndex :=
            carryOver project registry.externalSequenceIndex indexes.external },
        okResult indexes.instances.keys.length "instance configuration snapshot replaced")

/-- `findInstance`. -/
def findInstance (projectId : ProjectId) (sequenceId : SequenceId)
    (registry : RuntimeConfigRegistry) : Option RuntimeInstanceConfig :=
  registry.instanceConfigs.find (scopedKey projectId sequenceId)

/-- `resolveSequenceId`. -/
def resolveSequenceId (projectId : ProjectId) (dataSourceId externalSequenceId : String)
    (registry : RuntimeConfigRegistry) : Option SequenceId :=
  registry.externalSequenceIndex.find (externalKey projectId dataSourceId externalSequenceId)

/-! ## Constraint rules -/

/-- A variable without a name, or a mapped sequence that is no instance of the
    project: the error names the first one. -/
def unknownSequence (project : ProjectId) (rule : ConstraintRule)
    (registry : RuntimeConfigRegistry) : Option String :=
  rule.variableMapping.keys.findSome? fun variableName =>
    let sequenceId := (rule.variableMapping.find variableName).getD ""
    if variableName.isEmpty || (findInstance project sequenceId registry).isNone then
      some ("constraint references an unknown sequence: " ++ sequenceId)
    else none

/-- The loop of `upsertConstraints`. -/
def upsertConstraintItems (project : ProjectId) (registry : RuntimeConfigRegistry) :
    List RuntimeConstraintConfig → List String → Table String RuntimeConstraintConfig →
      Except String (Table String RuntimeConstraintConfig)
  | [], _, constraints => .ok constraints
  | item :: items, seen, constraints =>
      if item.rule.constraintId ∈ seen then
        .error ("duplicate constraint_id in incremental update: " ++ item.rule.constraintId)
      else
        match validateConstraintRule item.rule with
        | .error error => .error error
        | .ok _ =>
            match unknownSequence project item.rule registry with
            | some error => .error error
            | none =>
                upsertConstraintItems project registry items (item.rule.constraintId :: seen)
                  (put (scopedKey project item.rule.constraintId)
                    { item with projectId := project } constraints)

/-- `upsertConstraints`. -/
def upsertConstraints (projectId : ProjectId) (items : List RuntimeConstraintConfig)
    (registry : RuntimeConfigRegistry) : RuntimeConfigRegistry × OperationResult :=
  match upsertConstraintItems (snapshotProject projectId) registry items []
      registry.constraints with
  | .error message => (registry, invalidArgument message)
  | .ok constraints =>
      ({ registry with constraints := constraints },
        okResult items.length "constraint configuration incrementally synchronized")

/-- The loop of `replaceConstraints`. -/
def replaceConstraintItems (project : ProjectId) (registry : RuntimeConfigRegistry) :
    List RuntimeConstraintConfig → Table String RuntimeConstraintConfig →
      Except String (Table String RuntimeConstraintConfig)
  | [], constraints => .ok constraints
  | item :: items, constraints =>
      match validateConstraintRule item.rule with
      | .error error => .error error
      | .ok _ =>
          match unknownSequence project item.rule registry with
          | some error => .error error
          | none =>
              if (constraints.find (scopedKey project item.rule.constraintId)).isSome then
                .error ("duplicate constraint_id: " ++ item.rule.constraintId)
              else
                replaceConstraintItems project registry items
                  (put (scopedKey project item.rule.constraintId)
                    { item with projectId := project } constraints)

/-- `replaceConstraints`: the other projects stay. -/
def replaceConstraints (projectId : ProjectId) (items : List RuntimeConstraintConfig)
    (registry : RuntimeConfigRegistry) : RuntimeConfigRegistry × OperationResult :=
  let project := snapshotProject projectId
  match replaceConstraintItems project registry items KeyedTable.empty with
  | .error message => (registry, invalidArgument message)
  | .ok constraints =>
      ({ registry with constraints := carryOver project registry.constraints constraints },
        okResult constraints.keys.length "constraint configuration snapshot replaced")

/-- The rules that were asked for, and those that cannot be used. -/
structure ConstraintLookupResult where
  enabledRules : List ConstraintRule := []
  missingIds : List String := []
  disabledIds : List String := []

/-- `lookupConstraints`. -/
def lookupConstraints (projectId : ProjectId) (registry : RuntimeConfigRegistry)
    (constraintIds : List String) : ConstraintLookupResult :=
  constraintIds.foldl
    (fun result constraintId =>
      match registry.constraints.find (scopedKey projectId constraintId) with
      | none => { result with missingIds := result.missingIds ++ [constraintId] }
      | some config =>
          if config.enabled then { result with enabledRules := result.enabledRules ++ [config.rule] }
          else { result with disabledIds := result.disabledIds ++ [constraintId] })
    {}

/-- `allEnabledConstraints`: sorted, so that checks and logs are deterministic. -/
def allEnabledConstraints (projectId : ProjectId) (registry : RuntimeConfigRegistry) :
    List ConstraintRule :=
  (((projectConfigs projectId registry.constraints).filter fun config => config.enabled).map
    fun config => config.rule).insertionSort
      fun left right => left.constraintId ≤ right.constraintId

/-! ## Derived formulas -/

/-- The operator is set. -/
def validDerivedOperator (operation : DerivedOperator) : Bool := decide (operation ≠ .unspecified)

/-- The expression reads some sequence. -/
def containsSequenceLeaf : DerivedExpression → Bool
  | .sequence _ => true
  | .constant _ => false
  | .binary _ left right => containsSequenceLeaf left || containsSequenceLeaf right
  | .missing => false

/-- A sequence a formula may read. -/
def numericInstance (instances : List RuntimeInstanceConfig) (sequenceId : SequenceId) : Bool :=
  (instances.find? fun config => config.sequenceId = sequenceId).any continuousNumeric

/-- `validateDerivedExpression`: the first error. -/
def validateDerivedExpression (instances : List RuntimeInstanceConfig) :
    DerivedExpression → Option String
  | .sequence sequenceId =>
      if sequenceId.isEmpty then some "derived expression sequence_id must not be empty"
      else if !numericInstance instances sequenceId then
        some ("derived expression sequence must be registered as a continuous numeric sequence: "
          ++ sequenceId)
      else none
  | .constant value =>
      if !isFinite value then some "derived expression constant must be finite" else none
  | .binary operation left right =>
      if !validDerivedOperator operation || decide (left = .missing) ||
          decide (right = .missing) then
        some "derived binary expression is incomplete or invalid"
      else
        match validateDerivedExpression instances left with
        | some error => some error
        | none => validateDerivedExpression instances right
  | .missing => some "derived binary expression is incomplete or invalid"

/-- The term loop of `validateDerivedConfig`. -/
def validateLinearTerms (instances : List RuntimeInstanceConfig) :
    List DerivedLinearTerm → List SequenceId → Option String
  | [], _ => none
  | term :: terms, seen =>
      if term.sequenceId.isEmpty || !isFinite term.coefficient then
        some "derived linear term is invalid"
      else if !numericInstance instances term.sequenceId then
        some ("derived linear term must reference a registered continuous numeric sequence: "
          ++ term.sequenceId)
      else if term.sequenceId ∈ seen then
        some ("duplicate derived linear term sequence: " ++ term.sequenceId)
      else validateLinearTerms instances terms (term.sequenceId :: seen)

/-- `validateDerivedConfig`: the first error. -/
def validateDerivedConfig (instances : List RuntimeInstanceConfig)
    (item : RuntimeDerivedSeriesConfig) : Option String :=
  if item.derivedSequenceId.isEmpty then some "derived_sequence_id must not be empty"
  else if instances.any fun config => config.sequenceId = item.derivedSequenceId then
    some ("derived sequence_id conflicts with an instance sequence: " ++ item.derivedSequenceId)
  else
    match item.formula with
    | .linear combination =>
        if combination.terms.isEmpty || !isFinite combination.bias then
          some "derived linear combination must contain finite terms and bias"
        else validateLinearTerms instances combination.terms []
    | .expression expression =>
        if !containsSequenceLeaf expression then
          some "derived expression must reference at least one sequence"
        else validateDerivedExpression instances expression

/-- The loop of `upsertDerivedSeriesConfigs`. -/
def upsertDerivedItems (project : ProjectId) (instances : List RuntimeInstanceConfig) :
    List RuntimeDerivedSeriesConfig → List SequenceId →
      Table String RuntimeDerivedSeriesConfig →
        Except String (Table String RuntimeDerivedSeriesConfig)
  | [], _, derivedSeries => .ok derivedSeries
  | item :: items, seen, derivedSeries =>
      if item.derivedSequenceId ∈ seen then
        .error ("duplicate derived_sequence_id in incremental update: " ++
          item.derivedSequenceId)
      else
        match validateDerivedConfig instances item with
        | some error => .error error
        | none =>
            upsertDerivedItems project instances items (item.derivedSequenceId :: seen)
              (put (scopedKey project item.derivedSequenceId) { item with projectId := project }
                derivedSeries)

/-- `upsertDerivedSeriesConfigs`. -/
def upsertDerivedSeriesConfigs (projectId : ProjectId) (items : List RuntimeDerivedSeriesConfig)
    (registry : RuntimeConfigRegistry) : RuntimeConfigRegistry × OperationResult :=
  let project := snapshotProject projectId
  match upsertDerivedItems project (projectConfigs project registry.instanceConfigs) items []
      registry.derivedSeries with
  | .error message => (registry, invalidArgument message)
  | .ok derivedSeries =>
      ({ registry with derivedSeries := derivedSeries },
        okResult items.length "derived series configuration incrementally synchronized")

/-- `allDerivedSeries`: those of a project, by their ids. -/
def allDerivedSeries (projectId : ProjectId) (registry : RuntimeConfigRegistry) :
    List RuntimeDerivedSeriesConfig :=
  (projectConfigs projectId registry.derivedSeries).insertionSort
    fun left right => left.derivedSequenceId ≤ right.derivedSequenceId

/-! ## Relations -/

/-- The source loop of a relation: the first error. -/
def validateRelationSources : List RuntimeRelationSource → List SequenceId → Option String
  | [], _ => none
  | source :: sources, seen =>
      if source.sourceSequenceId.isEmpty || !isFinite source.weight then
        some "relation source sequence and weight must be valid"
      else if source.sourceSequenceId ∈ seen then
        some ("duplicate relation source sequence: " ++ source.sourceSequenceId)
      else
        match source.lag with
        | .range min max =>
            if max < min then some "relation source lag range is invalid"
            else validateRelationSources sources (source.sourceSequenceId :: seen)
        | _ => validateRelationSources sources (source.sourceSequenceId :: seen)

/-- The message about the identifiers of a relation. -/
def relationIdentifierMessage : String :=
  "relation_id and target_sequence_id must not be empty, and relation sources must not be empty"

/-- The loop of `replaceRelations`. -/
def replaceRelationItems (project : ProjectId) :
    List RuntimeRelationConfig → Table String RuntimeRelationConfig →
      Except String (Table String RuntimeRelationConfig)
  | [], relations => .ok relations
  | item :: items, relations =>
      if item.relationId.isEmpty || item.targetSequenceId.isEmpty || item.sources.isEmpty then
        .error relationIdentifierMessage
      else if !isFinite item.confidence then .error "relation confidence is invalid"
      else
        match validateRelationSources item.sources [] with
        | some error => .error error
        | none =>
            if (relations.find (scopedKey project item.relationId)).isSome then
              .error ("duplicate relation_id: " ++ item.relationId)
            else
              replaceRelationItems project items
                (put (scopedKey project item.relationId) { item with projectId := project }
                  relations)

/-- `replaceRelations`: the other projects stay. -/
def replaceRelations (projectId : ProjectId) (items : List RuntimeRelationConfig)
    (registry : RuntimeConfigRegistry) : RuntimeConfigRegistry × OperationResult :=
  let project := snapshotProject projectId
  match replaceRelationItems project items KeyedTable.empty with
  | .error message => (registry, invalidArgument message)
  | .ok relations =>
      ({ registry with relations := carryOver project registry.relations relations },
        okResult relations.keys.length "relation configuration snapshot replaced")

/-- The loop of `upsertRelations`. -/
def upsertRelationItems (project : ProjectId) :
    List RuntimeRelationConfig → List String → Table String RuntimeRelationConfig →
      Except String (Table String RuntimeRelationConfig)
  | [], _, relations => .ok relations
  | item :: items, seen, relations =>
      if item.relationId.isEmpty || item.targetSequenceId.isEmpty || item.sources.isEmpty then
        .error relationIdentifierMessage
      else if item.relationId ∈ seen then
        .error ("duplicate relation_id in incremental update: " ++ item.relationId)
      else if !isFinite item.confidence then .error "relation confidence is invalid"
      else
        match validateRelationSources item.sources [] with
        | some error => .error error
        | none =>
            upsertRelationItems project items (item.relationId :: seen)
              (put (scopedKey project item.relationId) { item with projectId := project } relations)

/-- `upsertRelations`. -/
def upsertRelations (projectId : ProjectId) (items : List RuntimeRelationConfig)
    (registry : RuntimeConfigRegistry) : RuntimeConfigRegistry × OperationResult :=
  match upsertRelationItems (snapshotProject projectId) items [] registry.relations with
  | .error message => (registry, invalidArgument message)
  | .ok relations =>
      ({ registry with relations := relations },
        okResult items.length "relation configuration incrementally synchronized")

/-- `findRelation`. -/
def findRelation (projectId : ProjectId) (relationId : String)
    (registry : RuntimeConfigRegistry) : Option RuntimeRelationConfig :=
  registry.relations.find (scopedKey projectId relationId)

/-! ## Sample configurations -/

/-- An instance that is its own external sequence. -/
def instanceOf (s : SequenceId) : RuntimeInstanceConfig :=
  { sequenceId := s, dataSourceId := "d", externalSequenceId := s }

/-- A rule that bounds the values of one sequence by 50. -/
def boundOn (id sequenceId group : String) : RuntimeConstraintConfig :=
  { rule :=
      { constraintId := id
        variableMapping := put "x" sequenceId KeyedTable.empty
        upperBound := some (.finite 50)
        terms :=
          [{ variableName := "x"
             coefficient := .finite 1
             sampleOffset_le := Nat.zero_le uint64Max }]
        orGroupId := group }
    enabled := true }

/-- Two instances of one project. -/
def twoInstances : RuntimeConfigRegistry :=
  (upsertInstanceConfigs "p" [instanceOf "s", instanceOf "t"] {}).1

end Registry
