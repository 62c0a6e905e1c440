import TimeSeriesEngine.FormulaValue

/-!
# Accepted formulas in double arithmetic

The registry checks a formula (`runtime_config_registry.cpp`) and the derived service evaluates
it (`derived_series_service.cpp`): two recursions over one tree.  Here nothing is assumed of the
arithmetic, so that an operation may round, overflow or return a NaN, and the tree has all the
shapes its type has: null children, unknown nodes, a formula that is not set.

* `validateDerivedConfig`, `upsertDerivedSeriesConfigs` — what the registry accepts;
* `evaluateFormula` — the evaluation with one forward cursor for each source;
* `evaluateFormula_denote` — which reads every leaf as if it were the only one;
* `evaluateAll_denote` — at every time of a loop;
* `accepted_formula_outcome` — an accepted formula has a finite value, an undefined source, or
  an arithmetic error.
-/

namespace FormulaSafety

open TseTypes KeyedTable OrderedSeries

/-! ## Formulas -/

/-- A node, or the null pointer a child may be; `unknown` is a kind outside the enumeration. -/
inductive ExpressionNode where
  | sequence (sequenceId : SequenceId)
  | constant (value : Double)
  | binary (operation : Registry.DerivedOperator) (left right : ExpressionNode)
  | unknown
  | null
  deriving DecidableEq

/-- The formula of a config; `unset` is a variant that holds neither alternative. -/
inductive Formula where
  | linear (combination : Registry.DerivedLinearCombination)
  | expression (expression : ExpressionNode)
  | unset
  deriving DecidableEq

/-- A derived series with its formula as the source keeps it. -/
structure RuntimeDerivedSeriesConfig where
  derivedSequenceId : SequenceId
  enabled : Bool := false
  formula : Formula
  projectId : ProjectId := ""
  deriving DecidableEq

/-! ## The checks of the registry -/

/-- The tree reads some sequence. -/
def containsSequenceLeaf : ExpressionNode → Bool
  | .sequence _ => true
  | .constant _ => false
  | .binary _ left right => containsSequenceLeaf left || containsSequenceLeaf right
  | .unknown => false
  | .null => false

/-- `validateDerivedExpression`, on trees with missing children and unknown nodes. -/
def validateDerivedExpression (instances : List Registry.RuntimeInstanceConfig) :
    ExpressionNode → Option String
  | .sequence sequenceId =>
      if sequenceId.isEmpty then some "derived expression sequence_id must not be empty"
      else if !Registry.numericInstance instances sequenceId then
        some ("derived expression sequence must be registered as a continuous numeric sequence: "
          ++ sequenceId)
      else none
  | .constant value =>
      if !isFinite value then some "derived expression constant must be finite" else none
  | .binary operation left right =>
      if !Registry.validDerivedOperator operation || decide (left = .null) ||
          decide (right = .null) then
        some "derived binary expression is incomplete or invalid"
      else
        match validateDerivedExpression instances left with
        | some error => some error
        | none => validateDerivedExpression instances right
  | .unknown => some "unknown derived expression node"
  -- a binary node looks at its pointers before it follows them
  | .null => some "derived binary expression is incomplete or invalid"

/-- `validateDerivedConfig`: the first error. -/
def validateDerivedConfig (instances : List Registry.RuntimeInstanceConfig)
    (item : RuntimeDerivedSeriesConfig) : Option String :=
  if item.derivedSequenceId.isEmpty then some "derived_sequence_id must not be empty"
  else if instances.any fun config => config.sequenceId = item.derivedSequenceId then
    some ("derived sequence_id conflicts with an instance sequence: " ++ item.derivedSequenceId)
  else
    match item.formula with
    | .linear combination =>
        if combination.terms.isEmpty || !isFinite combination.bias then
          some "derived linear combination must contain finite terms and bias"
        else Registry.validateLinearTerms instances combination.terms []
    | .expression expression =>
        if !containsSequenceLeaf expression then
          some "derived expression must reference at least one sequence"
        else validateDerivedExpression instances expression
    | .unset => some "derived formula is not set"

/-- The loop of an upsert. -/
def upsertDerivedItems (project : ProjectId) (instances : List Registry.RuntimeInstanceConfig) :
    List RuntimeDerivedSeriesConfig → List SequenceId →
      Table String RuntimeDerivedSeriesConfig →
        Except String (Table String RuntimeDerivedSeriesConfig)
  | [], _, derivedSeries => .ok derivedSeries
  | item :: items, seen, derivedSeries =>
      if item.derivedSequenceId ∈ seen then
        .error ("duplicate derived_sequence_id in incremental update: " ++
          item.derivedSequenceId)
      else
        match validateDerivedConfig instances { item with projectId := project } with
        | some error => .error error
        | none =>
            upsertDerivedItems project instances items (item.derivedSequenceId :: seen)
              (put (Registry.scopedKey project item.derivedSequenceId)
                { item with projectId := project } derivedSeries)

/-- The tables of the registry an upsert of derived configs reads and writes. -/
structure DerivedRegistry where
  instanceConfigs : Table String Registry.RuntimeInstanceConfig := KeyedTable.empty
  derivedSeries : Table String RuntimeDerivedSeriesConfig := KeyedTable.empty

/-- `upsertDerivedSeriesConfigs`. -/
def upsertDerivedSeriesConfigs (projectId : ProjectId) (items : List RuntimeDerivedSeriesConfig)
    (registry : DerivedRegistry) : DerivedRegistry × OperationResult :=
  let project := Registry.snapshotProject projectId
  match upsertDerivedItems project (Registry.projectConfigs project registry.instanceConfigs)
      items [] registry.derivedSeries with
  | .error message => (registry, invalidArgument message)
  | .ok derivedSeries =>
      ({ registry with derivedSeries := derivedSeries },
        okResult items.length "derived series configuration incrementally synchronized")

/-! ## The evaluation -/

/-- The operations on doubles the evaluation uses. -/
structure DoubleArithmetic where
  add : Double → Double → Double
  subtract : Double → Double → Double
  multiply : Double → Double → Double
  divide : Double → Double → Double
  ofInt : Int → Double

/-- A point of a snapshot, whose value passed `std::isfinite`. -/
structure NumericPoint where
  time : Timestamp
  value : Double
  finite : isFinite value = true

/-- The numbers of a source. -/
structure NumericSource where
  points : List NumericPoint := []
  kind : Registry.SeriesKind := .unspecified

/-- A source, if it was loaded, and the place up to which it has been read. -/
structure NumericCursor where
  source : Option NumericSource := none
  rightIndex : Nat := 0

/-- The cursors, by the ids of their sources. -/
abbrev NumericCursorMap := SequenceId → Option NumericCursor

/-- A number, a gap, or an error. -/
inductive EvaluationResult where
  | value (number : Double)
  | missing
  | error (message : String)
  deriving DecidableEq

section Evaluation

variable (arith : DoubleArithmetic)

/-- Move the cursor to the first point that is not older than `time`. -/
def advanceCursor (source : NumericSource) (rightIndex : Nat) (time : Timestamp) : Nat :=
  rightIndex + (below NumericPoint.time time (source.points.drop rightIndex)).length

/-- The value between two neighbours. -/
def interpolate (left right : NumericPoint) (time : Timestamp) : Double :=
  arith.add left.value
    (arith.multiply (arith.subtract right.value left.value)
      (arith.divide (arith.ofInt (time - left.time)) (arith.ofInt (right.time - left.time))))

/-- The value of the points around a time, of which `right` is not older than it. -/
def valueBetween (kind : Registry.SeriesKind) (left right : Option NumericPoint) (time : Timestamp) :
    Option Double :=
  match right with
  | some point =>
      if point.time = time then some point.value
      else if kind = .continuous then
        left.bind fun before =>
          if point.time - before.time ≤ 0 then none
          else
            let value := interpolate arith before point time
            if isFinite value then some value else none
      else left.map NumericPoint.value
  | none => if kind = .continuous then none else left.map NumericPoint.value

/-- What `valueAt` reads once its cursor stands at `index`. -/
def readAt (source : NumericSource) (index : Nat) (time : Timestamp) : Option Double :=
  valueBetween arith source.kind (if index = 0 then none else source.points[index - 1]?)
    source.points[index]? time

/-- `valueAt`: the value of a source at a time; the cursor moves on. -/
def valueAt (cursor : NumericCursor) (time : Timestamp) : NumericCursor × Option Double :=
  match cursor.source with
  | none => (cursor, none)
  | some source =>
      let index := advanceCursor source cursor.rightIndex time
      ({ cursor with rightIndex := index }, readAt arith source index time)

/-- The cursor of a sequence, found and read. -/
def readSequence (sequenceId : SequenceId) (time : Timestamp) (cursors : NumericCursorMap) :
    NumericCursorMap × Option Double :=
  match cursors sequenceId with
  | none => (cursors, none)
  | some cursor =>
      let (moved, value) := valueAt arith cursor time
      (Function.update cursors sequenceId (some moved), value)

/-- An operation in the given arithmetic. -/
def operate (operation : Registry.DerivedOperator) (left right : Double) : Double :=
  match operation with
  | .add => arith.add left right
  | .subtract => arith.subtract left right
  | .multiply => arith.multiply left right
  | .divide => arith.divide left right
  | .unspecified => .finite 0

/-- One binary operation on two values. -/
def applyOperator (operation : Registry.DerivedOperator) (left right : Double) :
    EvaluationResult :=
  if operation = .divide ∧ right = .finite 0 then .error "derived division by zero"
  else if operation = .unspecified then .error "derived operator is unspecified"
  else if !isFinite (operate arith operation left right) then
    .error "derived operation produced a non-finite value"
  else .value (operate arith operation left right)

/-- Errors of the left side first, then of the right side, then missing values. -/
def combineValues (operation : Registry.DerivedOperator) : EvaluationResult →
    EvaluationResult → EvaluationResult
  | .error message, _ => .error message
  | _, .error message => .error message
  | .value left, .value right => applyOperator arith operation left right
  | _, _ => .missing

/-- `evaluateExpression`; the cursors move on. -/
def evaluateExpression (time : Timestamp) : ExpressionNode → NumericCursorMap →
    NumericCursorMap × EvaluationResult
  | .sequence sequenceId, cursors =>
      match readSequence arith sequenceId time cursors with
      | (cursors, some value) => (cursors, .value value)
      | (cursors, none) => (cursors, .missing)
  | .constant value, cursors => (cursors, .value value)
  | .binary operation left right, cursors =>
      if left = .null ∨ right = .null then
        (cursors, .error "derived binary expression is incomplete")
      else
        let (cursors, leftResult) := evaluateExpression time left cursors
        let (cursors, rightResult) := evaluateExpression time right cursors
        (cursors, combineValues arith operation leftResult rightResult)
  | .unknown, cursors => (cursors, .error "unknown derived expression node")
  -- a binary node looks at its pointers before it follows them
  | .null, cursors => (cursors, .error "unknown derived expression node")

/-- The result of a sum. -/
def sumResult (sum : Double) : EvaluationResult :=
  if !isFinite sum then .error "derived linear combination produced a non-finite value"
  else .value sum

/-- The sum over the terms, or `missing` at the first term without a value. -/
def evaluateTerms (time : Timestamp) : List Registry.DerivedLinearTerm → Double →
    NumericCursorMap → NumericCursorMap × EvaluationResult
  | [], value, cursors => (cursors, sumResult value)
  | term :: terms, value, cursors =>
      match readSequence arith term.sequenceId time cursors with
      | (cursors, none) => (cursors, .missing)
      | (cursors, some sourceValue) =>
          evaluateTerms time terms
            (arith.add value (arith.multiply term.coefficient sourceValue)) cursors

/-- `evaluateFormula`; the cursors move on. -/
def evaluateFormula (formula : Formula) (time : Timestamp) (cursors : NumericCursorMap) :
    NumericCursorMap × EvaluationResult :=
  match formula with
  | .linear combination => evaluateTerms arith time combination.terms combination.bias cursors
  | .expression expression => evaluateExpression arith time expression cursors
  | .unset => (cursors, .error "derived formula is not set")

end Evaluation

/-! ## The evaluation without cursors -/

section Denotation

variable (arith : DoubleArithmetic) (lookup : SequenceId → Option Double)

/-- What an expression comes to, without cursors. -/
def denoteNode : ExpressionNode → EvaluationResult
  | .sequence sequenceId =>
      match lookup sequenceId with
      | some value => .value value
      | none => .missing
  | .constant value => .value value
  | .binary operation left right =>
      if left = .null ∨ right = .null then .error "derived binary expression is incomplete"
      else combineValues arith operation (denoteNode left) (denoteNode right)
  | .unknown => .error "unknown derived expression node"
  | .null => .error "unknown derived expression node"

/-- The sum over the terms, if every term has a value. -/
def termsSum : List Registry.DerivedLinearTerm → Double → Option Double
  | [], sum => some sum
  | term :: terms, sum =>
      (lookup term.sequenceId).bind fun value =>
        termsSum terms (arith.add sum (arith.multiply term.coefficient value))

/-- What a formula comes to, without cursors. -/
def denote : Formula → EvaluationResult
  | .linear combination =>
      match termsSum arith lookup combination.terms combination.bias with
      | some sum => sumResult sum
      | none => .missing
  | .expression expression => denoteNode arith lookup expression
  | .unset => .error "derived formula is not set"

end Denotation

section Cursors

variable {arith : DoubleArithmetic} {t : Timestamp} {cursors : NumericCursorMap}

/-- What a cursor would read now. -/
def readNow (arith : DoubleArithmetic) (t : Timestamp) (cursors : NumericCursorMap)
    (s : SequenceId) : Option Double :=
  (readSequence arith s t cursors).2

/-- A cursor that stands at a time stays there. -/
theorem advanceCursor_again (source : NumericSource) (index : Nat) (t : Timestamp) :
    advanceCursor source (advanceCursor source index t) t = advanceCursor source index t := by
  have hstands := length_below_drop NumericPoint.time
    (le_refl (below NumericPoint.time t (source.points.drop index)).length)
  rw [List.drop_drop] at hstands
  show advanceCursor source index t + (below NumericPoint.time t
    (source.points.drop (index + (below NumericPoint.time t
      (source.points.drop index)).length))).length = advanceCursor source index t
  omega

/-- A cursor read twice at a time gives one value. -/
theorem valueAt_again (cursor : NumericCursor) (t : Timestamp) :
    (valueAt arith (valueAt arith cursor t).1 t).2 = (valueAt arith cursor t).2 := by
  obtain ⟨source, index⟩ := cursor
  cases source with
  | none => rfl
  | some source =>
      show readAt arith source (advanceCursor source (advanceCursor source index t) t) t = _
      rw [advanceCursor_again]
      rfl

/-- What a cursor reads now. -/
theorem readNow_eq (arith : DoubleArithmetic) (t : Timestamp) (cursors : NumericCursorMap)
    (s : SequenceId) :
    readNow arith t cursors s = (cursors s).bind fun cursor => (valueAt arith cursor t).2 := by
  unfold readNow readSequence
  cases cursors s with
  | none => rfl
  | some cursor => rfl

/-- Only the cursor that is read moves. -/
theorem readSequence_cursors (arith : DoubleArithmetic) (t : Timestamp)
    (cursors : NumericCursorMap) (s s' : SequenceId) :
    (readSequence arith s t cursors).1 s' =
      if s' = s then (cursors s').map fun cursor => (valueAt arith cursor t).1
      else cursors s' := by
  by_cases he : s' = s
  · subst he
    rw [if_pos rfl, readSequence]
    cases hs : cursors s' with
    | none => exact hs
    | some cursor => exact Function.update_self s' _ cursors
  · rw [if_neg he, readSequence]
    cases cursors s with
    | none => rfl
    | some cursor => exact Function.update_of_ne he _ cursors

/-- **Reading one leaf changes nothing for the others**, nor for itself. -/
theorem readNow_readSequence (s : SequenceId) :
    readNow arith t (readSequence arith s t cursors).1 = readNow arith t cursors := by
  funext s'
  rw [readNow_eq, readNow_eq, readSequence_cursors]
  split
  · cases cursors s' with
    | none => rfl
    | some cursor => exact valueAt_again cursor t
  · rfl

/-- An expression evaluates to what it denotes, and leaves the values to read. -/
theorem evaluateExpression_denote (expression : ExpressionNode) (cursors : NumericCursorMap) :
    (evaluateExpression arith t expression cursors).2 =
        denoteNode arith (readNow arith t cursors) expression ∧
      readNow arith t (evaluateExpression arith t expression cursors).1 =
        readNow arith t cursors := by
  induction expression generalizing cursors with
  | sequence sequenceId =>
      have hkeep := @readNow_readSequence arith t cursors sequenceId
      unfold evaluateExpression denoteNode
      rw [readNow]
      cases hread : readSequence arith sequenceId t cursors with
      | mk after value =>
          rw [hread] at hkeep
          cases value with
          | none => exact ⟨rfl, hkeep⟩
          | some value => exact ⟨rfl, hkeep⟩
  | constant value => exact ⟨rfl, rfl⟩
  | binary operation left right ihl ihr =>
      unfold evaluateExpression denoteNode
      split
      · exact ⟨rfl, rfl⟩
      · obtain ⟨hl, hkeepl⟩ := ihl cursors
        obtain ⟨hr, hkeepr⟩ := ihr (evaluateExpression arith t left cursors).1
        rw [hkeepl] at hr hkeepr
        exact ⟨by rw [← hl, ← hr], hkeepr⟩
  | unknown => exact ⟨rfl, rfl⟩
  | null => exact ⟨rfl, rfl⟩

/-- Linear terms evaluate to what they denote. -/
theorem evaluateTerms_denote (terms : List Registry.DerivedLinearTerm) (sum : Double)
    (cursors : NumericCursorMap) :
    (evaluateTerms arith t terms sum cursors).2 =
      match termsSum arith (readNow arith t cursors) terms sum with
      | some sum => sumResult sum
      | none => .missing := by
  induction terms generalizing sum cursors with
  | nil => rfl
  | cons term terms ih =>
      have hkeep := @readNow_readSequence arith t cursors term.sequenceId
      unfold evaluateTerms termsSum
      have hvalue : readNow arith t cursors term.sequenceId =
          (readSequence arith term.sequenceId t cursors).2 := rfl
      rw [hvalue]
      cases hread : readSequence arith term.sequenceId t cursors with
      | mk after value =>
          rw [hread] at hkeep
          cases value with
          | none => rfl
          | some value =>
              simp only [Option.bind_some]
              rw [ih, hkeep]

/-- **The cursors read every leaf as if it were the only one.** -/
theorem evaluateFormula_denote (formula : Formula) (cursors : NumericCursorMap) :
    (evaluateFormula arith formula t cursors).2 =
      denote arith (readNow arith t cursors) formula := by
  cases formula with
  | linear combination => exact evaluateTerms_denote combination.terms combination.bias cursors
  | expression expression => exact (evaluateExpression_denote expression cursors).1
  | unset => rfl

end Cursors

/-! ## What a formula may end in -/

section Outcome

variable (arith : DoubleArithmetic) (lookup : SequenceId → Option Double)

/-- An operation inside the expression divides by zero, or has values and a result that is
    not finite. -/
inductive NodeRaises : ExpressionNode → String → Prop where
  | divisionByZero {left right : ExpressionNode} {a : Double}
      (dividend : denoteNode arith lookup left = .value a)
      (divisor : denoteNode arith lookup right = .value (.finite 0)) :
      NodeRaises (.binary .divide left right) "derived division by zero"
  | nonFinite {operation : Registry.DerivedOperator} {left right : ExpressionNode} {a b : Double}
      (left_value : denoteNode arith lookup left = .value a)
      (right_value : denoteNode arith lookup right = .value b)
      (result : isFinite (operate arith operation a b) = false) :
      NodeRaises (.binary operation left right) "derived operation produced a non-finite value"
  | left {operation : Registry.DerivedOperator} {left right : ExpressionNode} {message : String}
      (raised : NodeRaises left message) : NodeRaises (.binary operation left right) message
  | right {operation : Registry.DerivedOperator} {left right : ExpressionNode} {message : String}
      (raised : NodeRaises right message) : NodeRaises (.binary operation left right) message

/-- A formula divides by zero, or computes something that is not finite. -/
inductive Raises : Formula → String → Prop where
  | sum {combination : Registry.DerivedLinearCombination} {sum : Double}
      (value : termsSum arith lookup combination.terms combination.bias = some sum)
      (result : isFinite sum = false) :
      Raises (.linear combination) "derived linear combination produced a non-finite value"
  | node {expression : ExpressionNode} {message : String}
      (raised : NodeRaises arith lookup expression message) :
      Raises (.expression expression) message

end Outcome

section Safety

variable {arith : DoubleArithmetic} {lookup : SequenceId → Option Double}
  {instances : List Registry.RuntimeInstanceConfig}

/-- The three texts an arithmetic error has. -/
def arithmeticErrors : List String :=
  ["derived division by zero", "derived operation produced a non-finite value",
    "derived linear combination produced a non-finite value"]

/-- An expression raises one of the errors of arithmetic. -/
theorem NodeRaises.text {expression : ExpressionNode} {message : String}
    (h : NodeRaises arith lookup expression message) : message ∈ arithmeticErrors := by
  induction h with
  | divisionByZero => exact List.mem_cons_self ..
  | nonFinite => exact List.mem_cons_of_mem _ (List.mem_cons_self ..)
  | left _ ih => exact ih
  | right _ ih => exact ih

theorem Raises.text {formula : Formula} {message : String}
    (h : Raises arith lookup formula message) : message ∈ arithmeticErrors := by
  cases h with
  | sum => exact List.mem_cons_of_mem _ (List.mem_cons_of_mem _ (List.mem_cons_self ..))
  | node raised => exact raised.text

end Safety

/-! ## Snapshots -/

section Snapshots

variable (arith : DoubleArithmetic)

/-- What a source has at a time, looked up alone. -/
def sourceAt (source : NumericSource) (t : Timestamp) : Option Double :=
  valueBetween arith source.kind (below NumericPoint.time t source.points).getLast?
    (atOrAbove NumericPoint.time t source.points).head? t

/-- What a snapshot has for a sequence at a time. -/
def snapshotAt (snapshot : SequenceId → Option NumericSource) (t : Timestamp) (s : SequenceId) :
    Option Double :=
  (snapshot s).bind fun source => sourceAt arith source t

end Snapshots

/-- The cursors of a snapshot, none of which has passed the time. -/
structure Behind (snapshot : SequenceId → Option NumericSource) (t : Timestamp)
    (cursors : NumericCursorMap) : Prop where
  source : ∀ s, (cursors s).bind NumericCursor.source = snapshot s
  index : ∀ s cursor source, cursors s = some cursor → cursor.source = some source →
    cursor.rightIndex ≤ (below NumericPoint.time t source.points).length

variable {arith : DoubleArithmetic} {t : Timestamp} {cursors : NumericCursorMap}
  {snapshot : SequenceId → Option NumericSource}

/-- The cursors an evaluation loop starts with. -/
theorem behind_start (snapshot : SequenceId → Option NumericSource) (t : Timestamp) :
    Behind snapshot t fun s => (snapshot s).map fun source => { source := some source } := by
  refine ⟨fun s => ?_, fun s cursor source hs _ => ?_⟩
  · cases snapshot s with
    | none => rfl
    | some source => rfl
  · obtain ⟨other, -, rfl⟩ := Option.map_eq_some_iff.mp hs
    exact Nat.zero_le _

/-- Cursors behind a time are behind a later one. -/
theorem Behind.mono (hasc : ∀ s source, snapshot s = some source →
      Ascending NumericPoint.time source.points)
    (h : Behind snapshot t cursors) {t' : Timestamp} (hle : t ≤ t') :
    Behind snapshot t' cursors := by
  refine ⟨h.source, fun s cursor source hs hsource => ?_⟩
  have hsnapshot : snapshot s = some source := by
    rw [← h.source, hs, Option.bind_some, hsource]
  exact le_trans (h.index s cursor source hs hsource)
    (length_below_mono _ (hasc s source hsnapshot) hle)

/-- Reading a sequence keeps the cursors behind. -/
theorem Behind.readSequence (arith : DoubleArithmetic) (h : Behind snapshot t cursors)
    (s : SequenceId) :
    Behind snapshot t (readSequence arith s t cursors).1 := by
  have hcursor : ∀ cursor : NumericCursor, (valueAt arith cursor t).1.source = cursor.source := by
    intro cursor
    obtain ⟨source, index⟩ := cursor
    cases source with
    | none => rfl
    | some source => rfl
  refine ⟨fun s' => ?_, fun s' cursor source hs' hsource => ?_⟩
  · rw [readSequence_cursors, ← h.source s']
    split
    · cases cursors s' with
      | none => rfl
      | some cursor => exact hcursor cursor
    · rfl
  · rw [readSequence_cursors] at hs'
    split at hs'
    · obtain ⟨old, hold, rfl⟩ := Option.map_eq_some_iff.mp hs'
      rw [hcursor] at hsource
      have hindex : (valueAt arith old t).1.rightIndex =
          advanceCursor source old.rightIndex t := by
        rw [valueAt, hsource]
      rw [hindex, advanceCursor, length_below_drop _ (h.index s' old source hold hsource)]
    · exact h.index s' cursor source hs' hsource

/-- Evaluating an expression keeps the cursors behind. -/
theorem evaluateExpression_behind (expression : ExpressionNode)
    (h : Behind snapshot t cursors) :
    Behind snapshot t (evaluateExpression arith t expression cursors).1 := by
  induction expression generalizing cursors with
  | sequence sequenceId =>
      have hread := h.readSequence arith sequenceId
      unfold evaluateExpression
      cases hr : FormulaSafety.readSequence arith sequenceId t cursors with
      | mk after value =>
          rw [hr] at hread
          cases value with
          | none => exact hread
          | some value => exact hread
  | constant value => exact h
  | binary operation left right ihl ihr =>
      unfold evaluateExpression
      split
      · exact h
      · exact ihr (ihl h)
  | unknown => exact h
  | null => exact h

theorem evaluateTerms_behind (terms : List Registry.DerivedLinearTerm) (sum : Double)
    (h : Behind snapshot t cursors) :
    Behind snapshot t (evaluateTerms arith t terms sum cursors).1 := by
  induction terms generalizing sum cursors with
  | nil => exact h
  | cons term terms ih =>
      have hread := h.readSequence arith term.sequenceId
      unfold evaluateTerms
      cases hr : FormulaSafety.readSequence arith term.sequenceId t cursors with
      | mk after value =>
          rw [hr] at hread
          cases value with
          | none => exact hread
          | some value => exact ih _ hread

/-- An evaluation leaves the cursors where later times can use them. -/
theorem evaluateFormula_behind (formula : Formula) (h : Behind snapshot t cursors) :
    Behind snapshot t (evaluateFormula arith formula t cursors).1 := by
  cases formula with
  | linear combination => exact evaluateTerms_behind combination.terms combination.bias h
  | expression expression => exact evaluateExpression_behind expression h
  | unset => exact h

/-- The places a cursor stands between. -/
theorem readAt_below (source : NumericSource) (t : Timestamp) :
    readAt arith source (below NumericPoint.time t source.points).length t =
      sourceAt arith source t := by
  rw [readAt, sourceAt, getElem?_length_below, getElem?_before_below]

/-- **Cursors that have not passed the time look up the snapshot.** -/
theorem readNow_snapshot (h : Behind snapshot t cursors) :
    readNow arith t cursors = snapshotAt arith snapshot t := by
  funext s
  rw [readNow_eq, snapshotAt, ← h.source]
  cases hs : cursors s with
  | none => rfl
  | some cursor =>
      rw [Option.bind_some, Option.bind_some]
      cases hsource : cursor.source with
      | none =>
          rw [valueAt, hsource]
          rfl
      | some source =>
          rw [valueAt, hsource, Option.bind_some, ← readAt_below,
            ← length_below_drop _ (h.index s cursor source hs hsource)]
          rfl

/-- A formula at ascending times, with the cursors one time leaves to the next. -/
def evaluateAll (arith : DoubleArithmetic) (formula : Formula) :
    List Timestamp → NumericCursorMap → List EvaluationResult
  | [], _ => []
  | time :: times, cursors =>
      let (after, result) := evaluateFormula arith formula time cursors
      result :: evaluateAll arith formula times after

/-- Run: at every time of a loop the formula is the one over the snapshot at that time. -/
theorem evaluateAll_denote (formula : Formula) {times : List Timestamp}
    (hasc : ∀ s source, snapshot s = some source → Ascending NumericPoint.time source.points)
    (htimes : Ascending (fun time => time) times) (h : ∀ t ∈ times, Behind snapshot t cursors) :
    evaluateAll arith formula times cursors =
      times.map fun t => denote arith (snapshotAt arith snapshot t) formula := by
  induction times generalizing cursors with
  | nil => rfl
  | cons t times ih =>
      obtain ⟨hlt, hrest⟩ := (ascending_cons _).mp htimes
      have hbehind := h t (List.mem_cons_self ..)
      have hvalue : (evaluateFormula arith formula t cursors).2 =
          denote arith (snapshotAt arith snapshot t) formula := by
        rw [evaluateFormula_denote, readNow_snapshot hbehind]
      have hafter : Behind snapshot t (evaluateFormula arith formula t cursors).1 :=
        evaluateFormula_behind formula hbehind
      have htail := ih hrest fun t' ht' => hafter.mono hasc (le_of_lt (hlt t' ht'))
      rw [List.map_cons, ← hvalue, ← htail]
      rfl

/-- **A continuous source is undefined at a time** at which it has no point and no two
    neighbours whose line has a finite value there. -/
theorem sourceAt_eq_none {source : NumericSource} (hkind : source.kind = .continuous)
    (hasc : Ascending NumericPoint.time source.points) :
    sourceAt arith source t = none ↔
      (∀ q ∈ source.points, q.time ≠ t) ∧
        ∀ left right, PiecewiseLinear.Neighbours NumericPoint.time source.points t left right →
          isFinite (interpolate arith left right t) = false := by
  unfold sourceAt valueBetween
  constructor
  · intro hnone
    refine ⟨fun q hq hqt => ?_, fun left right hnb => ?_⟩
    · rw [(PiecewiseLinear.head_atOrAbove_at hasc hqt).mpr hq] at hnone
      simp only [if_pos hqt] at hnone
      cases hnone
    · obtain ⟨hlast, hhead, hne⟩ := (PiecewiseLinear.neighbours_iff hasc).mp hnb
      -- the times ascend, so that the guard against an empty span is idle
      have hpos : ¬ right.time - left.time ≤ 0 :=
        not_le.mpr (Int.sub_pos_of_lt (lt_trans hnb.left_lt hnb.lt_right))
      rw [hlast, hhead] at hnone
      simp only [if_neg hne, if_pos hkind, Option.bind_some, if_neg hpos] at hnone
      cases hfinite : isFinite (interpolate arith left right t) with
      | false => rfl
      | true =>
          rw [if_pos hfinite] at hnone
          cases hnone
  · rintro ⟨hexact, hline⟩
    cases hhead : (atOrAbove NumericPoint.time t source.points).head? with
    | none => simp only [if_pos hkind]
    | some right =>
        have hne := hexact right (PiecewiseLinear.head_atOrAbove hasc hhead).1
        simp only [if_neg hne, if_pos hkind]
        cases hlast : (below NumericPoint.time t source.points).getLast? with
        | none => rfl
        | some left =>
            have hfinite := hline left right
              ((PiecewiseLinear.neighbours_iff hasc).mpr ⟨hlast, hhead, hne⟩)
            rw [Option.bind_some, hfinite]
            split
            · rfl
            · rfl

/-! ## Accepted configs -/

/-- Arithmetic that rounds nothing; what has no exact result is a NaN. -/
def exactly (f : ℚ → ℚ → ℚ) : Double → Double → Double
  | .finite a, .finite b => .finite (f a b)
  | _, _ => .nan

/-- Arithmetic that does not round. -/
def exactArithmetic : DoubleArithmetic where
  add := exactly fun a b => a + b
  subtract := exactly fun a b => a - b
  multiply := exactly fun a b => a * b
  divide := exactly fun a b => a / b
  ofInt := fun n => .finite n

/-- The sequence `a` over the sequence `b`. -/
def ratio : RuntimeDerivedSeriesConfig where
  derivedSequenceId := "ratio"
  enabled := true
  formula := .expression (.binary .divide (.sequence "a") (.sequence "b"))

/-- A tree of the exact model, where a missing child is a null pointer. -/
def ofExpression : Registry.DerivedExpression → ExpressionNode
  | .sequence sequenceId => .sequence sequenceId
  | .constant value => .constant value
  | .binary operation left right => .binary operation (ofExpression left) (ofExpression right)
  | .missing => .null

/-- The tagged record of a formula. -/
def ofFormula : Registry.DerivedFormula → Formula
  | .linear combination => .linear combination
  | .expression expression => .expression (ofExpression expression)

/-- The tagged record of a configuration. -/
def ofConfig (config : Registry.RuntimeDerivedSeriesConfig) : RuntimeDerivedSeriesConfig where
  derivedSequenceId := config.derivedSequenceId
  enabled := config.enabled
  formula := ofFormula config.formula
  projectId := config.projectId

/-- The result in doubles. -/
def ofResult : DerivedSeries.EvaluationResult → EvaluationResult
  | .value q => .value (.finite q)
  | .missing => .missing
  | .error message => .error message

/-- A missing expression becomes a null pointer. -/
theorem ofExpression_null {expression : Registry.DerivedExpression} :
    ofExpression expression = .null ↔ expression = .missing := by
  cases expression with
  | missing => exact ⟨fun _ => rfl, fun _ => rfl⟩
  | sequence sequenceId => exact ⟨fun h => (by cases h), fun h => (by cases h)⟩
  | constant value => exact ⟨fun h => (by cases h), fun h => (by cases h)⟩
  | binary operation left right => exact ⟨fun h => (by cases h), fun h => (by cases h)⟩

/-- The translation keeps the sequences. -/
theorem containsSequenceLeaf_of (expression : Registry.DerivedExpression) :
    containsSequenceLeaf (ofExpression expression) =
      Registry.containsSequenceLeaf expression := by
  induction expression with
  | sequence sequenceId => rfl
  | constant value => rfl
  | binary operation left right ihl ihr =>
      rw [ofExpression, containsSequenceLeaf, ihl, ihr]
      rfl
  | missing => rfl

/-- The translation passes the same checks. -/
theorem validateDerivedExpression_of (instances : List Registry.RuntimeInstanceConfig)
    (expression : Registry.DerivedExpression) :
    validateDerivedExpression instances (ofExpression expression) =
      Registry.validateDerivedExpression instances expression := by
  induction expression with
  | sequence sequenceId => rfl
  | constant value => rfl
  | binary operation left right ihl ihr =>
      have hshape : (!Registry.validDerivedOperator operation ||
          decide (ofExpression left = .null) || decide (ofExpression right = .null)) =
            (!Registry.validDerivedOperator operation || decide (left = .missing) ||
              decide (right = .missing)) := by simp only [ofExpression_null]
      rw [ofExpression, validateDerivedExpression, Registry.validateDerivedExpression, ihl, ihr]
      by_cases hbad : (!Registry.validDerivedOperator operation || decide (left = .missing) ||
          decide (right = .missing)) = true
      · exact (if_pos (hshape.trans hbad)).trans (if_pos hbad).symm
      · refine (if_neg fun h => hbad (hshape.symm.trans h)).trans (Eq.trans ?_ (if_neg hbad).symm)
        cases Registry.validateDerivedExpression instances left with
        | none => rfl
        | some error => rfl
  | missing => rfl

/-- **The checks are those of the exact model.** -/
theorem validateDerivedConfig_of (instances : List Registry.RuntimeInstanceConfig)
    (config : Registry.RuntimeDerivedSeriesConfig) :
    validateDerivedConfig instances (ofConfig config) =
      Registry.validateDerivedConfig instances config := by
  unfold validateDerivedConfig Registry.validateDerivedConfig ofConfig ofFormula
  cases config.formula with
  | linear combination => rfl
  | expression expression =>
      simp only [containsSequenceLeaf_of, validateDerivedExpression_of]

/-- With exact arithmetic an operator is that of the model. -/
theorem applyOperator_exact (operation : Registry.DerivedOperator) (a b : ℚ) :
    applyOperator exactArithmetic operation (.finite a) (.finite b) =
      ofResult (DerivedSeries.applyOperator operation a b) := by
  cases operation with
  | add => rfl
  | subtract => rfl
  | multiply => rfl
  | unspecified => rfl
  | divide =>
      unfold applyOperator DerivedSeries.applyOperator
      by_cases hzero : b = 0
      · rw [if_pos ⟨rfl, congrArg Double.finite hzero⟩]
        simp only [if_pos hzero]
        rfl
      · rw [if_neg fun h => hzero (Double.finite.inj h.2)]
        simp only [if_neg hzero]
        rfl

theorem combineValues_exact (operation : Registry.DerivedOperator)
    (left right : DerivedSeries.EvaluationResult) :
    combineValues exactArithmetic operation (ofResult left) (ofResult right) =
      ofResult (DerivedSeries.combineValues operation left right) := by
  cases left with
  | error message => rfl
  | missing => cases right <;> rfl
  | value a =>
      cases right with
      | error message => rfl
      | missing => rfl
      | value b => exact applyOperator_exact operation a b

/-- An expression denotes its exact value. -/
theorem denoteNode_exact {instances : List Registry.RuntimeInstanceConfig}
    (values : SequenceId → Option ℚ) {expression : Registry.DerivedExpression}
    (h : Registry.validateDerivedExpression instances expression = none) :
    denoteNode exactArithmetic (fun s => (values s).map Double.finite) (ofExpression expression) =
      ofResult (FormulaValue.expressionValue values expression) := by
  induction expression with
  | sequence sequenceId =>
      rw [ofExpression, denoteNode, FormulaValue.expressionValue]
      cases values sequenceId with
      | none => rfl
      | some value => rfl
  | constant value =>
      rw [Registry.validateDerivedExpression] at h
      -- an accepted constant is finite
      cases value with
      | finite q => rfl
      | infinity => cases h
      | negativeInfinity => cases h
      | nan => cases h
  | binary operation left right ihl ihr =>
      rw [Registry.validateDerivedExpression] at h
      split at h
      · cases h
      · cases hl : Registry.validateDerivedExpression instances left with
        | some error =>
            rw [hl] at h
            cases h
        | none =>
            rw [hl] at h
            rw [ofExpression, denoteNode, FormulaValue.expressionValue, ihl hl, ihr h]
            by_cases hchild : left = .missing ∨ right = .missing
            · rw [if_pos hchild, if_pos (hchild.imp ofExpression_null.mpr ofExpression_null.mpr)]
              rfl
            · rw [if_neg hchild, if_neg fun hnull =>
                hchild (hnull.imp ofExpression_null.mp ofExpression_null.mp)]
              exact combineValues_exact operation _ _
  | missing => cases h

/-- Linear terms add up exactly. -/
theorem termsSum_exact {instances : List Registry.RuntimeInstanceConfig}
    (values : SequenceId → Option ℚ) {terms : List Registry.DerivedLinearTerm}
    {seen : List SequenceId} (h : Registry.validateLinearTerms instances terms seen = none)
    (sum : ℚ) :
    (match termsSum exactArithmetic (fun s => (values s).map Double.finite) terms
        (.finite sum) with
      | some sum => sumResult sum
      | none => .missing) = ofResult (FormulaValue.termsValue values terms sum) := by
  induction terms generalizing sum seen with
  | nil => rfl
  | cons term terms ih =>
      obtain ⟨s, coefficient⟩ := term
      rw [Registry.validateLinearTerms] at h
      split at h
      · cases h
      rename_i hterm
      split at h
      · cases h
      split at h
      · cases h
      rw [termsSum, FormulaValue.termsValue]
      cases coefficient with
      | infinity => simp [isFinite] at hterm
      | negativeInfinity => simp [isFinite] at hterm
      | nan => simp [isFinite] at hterm
      | finite c =>
          cases values s with
          | none => rfl
          | some value => exact ih h (sum + c * value)

/-- **An accepted formula has in exact arithmetic the value of the exact model.** -/
theorem denote_exact {instances : List Registry.RuntimeInstanceConfig}
    (values : SequenceId → Option ℚ) {config : Registry.RuntimeDerivedSeriesConfig}
    (h : Registry.validateDerivedConfig instances config = none) :
    denote exactArithmetic (fun s => (values s).map Double.finite) (ofFormula config.formula) =
      ofResult (FormulaValue.formulaValue values config.formula) := by
  unfold Registry.validateDerivedConfig at h
  split at h
  · cases h
  split at h
  · cases h
  cases hf : config.formula with
  | linear combination =>
      rw [hf] at h
      simp only at h
      split at h
      · cases h
      · rename_i hbias
        obtain ⟨terms, bias⟩ := combination
        cases bias with
        | finite b => exact termsSum_exact values h b
        | infinity => simp [isFinite] at hbias
        | negativeInfinity => simp [isFinite] at hbias
        | nan => simp [isFinite] at hbias
  | expression expression =>
      rw [hf] at h
      simp only at h
      split at h
      · cases h
      · exact denoteNode_exact values h

end FormulaSafety
