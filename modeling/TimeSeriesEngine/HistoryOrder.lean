import TimeSeriesEngine.ColdQuery
import TimeSeriesEngine.Library.StableSort

/-!
# The order of a history query

A history query reads blocks of rows, keeps a flag about their times and sorts either
the runs of equal times or everything.

* `fetchLoop` — the loops over blocks and rows, and the second attempt without a kind;
* `sortRuns` — the loop over the runs of equal times, in place;
* `historyKey` — what the points are sorted by, whatever the flag says;
* `history_order_exact` — so the result is the stable sort of the rows;
* `queryRaw_eq_queryHistory` — the query of the cold store is one of these.
-/

namespace HistoryOrder

open TseTypes KeyedTable HotWindow OrderedSeries StableSort TaosClient

/-! ## Reading the rows -/

/-- A row of a block; a null cell is `none`.  The `value` column of a typed projection is
    the column of its kind. -/
structure FetchedRow where
  time : Option Timestamp
  valueType : Option Int
  sequenceId : Option SequenceId
  columns : ValueColumns

/-- What the database answers a projection with: an error, or its blocks. -/
abbrev Answer := Except OperationResult (List (List FetchedRow))

/-- Why the loops over the rows end early. -/
inductive FetchStop where
  | typedMismatch
  | failed (result : OperationResult)

/-- The points so far, and whether their times have gone up. -/
structure FetchState where
  points : List RawTimeseriesPoint := []
  timeOrdered : Bool := true
  previousTime : Option Timestamp := none

/-- The value of a row, read with the typed projection of a kind or the generic one. -/
def rowValue (kind : Option TimeseriesValueKind) (type : Int) (columns : ValueColumns) :
    Except FetchStop TimeseriesValue :=
  match kind with
  | some kind =>
      if type ≠ valueTypeCode kind then .error .typedMismatch
      else
        match columnValue columns kind with
        | none => .error .typedMismatch
        | some value => .ok value
  | none =>
      match columnValue columns (kindOfType type) with
      | none => .error (.failed (internalError "query raw data returned an invalid typed value"))
      | some value => .ok value

/-- The point of a row. -/
def rowPoint (projectId : ProjectId) (kind : Option TimeseriesValueKind) (row : FetchedRow) :
    Except FetchStop RawTimeseriesPoint :=
  match row.time, row.valueType with
  | some time, some type =>
      match rowValue kind type row.columns with
      | .error stop => .error stop
      | .ok value =>
          match row.sequenceId with
          | none => .error (.failed (internalError "query raw data returned a null sequence_id"))
          | some sequenceId =>
              .ok { time := time
                    sequenceId := sequenceId
                    value := value
                    projectId := projectId }
  | _, _ =>
      .error (.failed (internalError "query raw data returned a null timestamp or value type"))

/-- The flag falls with the first time below the one before it. -/
def FetchState.noteTime (state : FetchState) (time : Timestamp) : FetchState :=
  { state with
    timeOrdered :=
      if state.previousTime.any fun previous => decide (time < previous) then false
      else state.timeOrdered
    previousTime := some time }

/-- One turn of the loop over rows; the time is noted before the value is looked at. -/
def fetchRow (projectId : ProjectId) (kind : Option TimeseriesValueKind) (state : FetchState)
    (row : FetchedRow) : FetchState × Option FetchStop :=
  let state :=
    match row.time, row.valueType with
    | some time, some _ => state.noteTime time
    | _, _ => state
  match rowPoint projectId kind row with
  | .error stop => (state, some stop)
  | .ok point => ({ state with points := state.points ++ [point] }, none)

/-- A stop breaks out of the loop. -/
def goOn (outcome : FetchState × Option FetchStop)
    (next : FetchState → FetchState × Option FetchStop) : FetchState × Option FetchStop :=
  match outcome with
  | (state, none) => next state
  | (state, some stop) => (state, some stop)

/-- The loop over the rows of a block. -/
def fetchRows (projectId : ProjectId) (kind : Option TimeseriesValueKind) :
    FetchState → List FetchedRow → FetchState × Option FetchStop
  | state, [] => (state, none)
  | state, row :: rest =>
      goOn (fetchRow projectId kind state row) fun state => fetchRows projectId kind state rest

/-- The loop over the blocks of an answer. -/
def fetchBlocks (projectId : ProjectId) (kind : Option TimeseriesValueKind) :
    FetchState → List (List FetchedRow) → FetchState × Option FetchStop
  | state, [] => (state, none)
  | state, block :: rest =>
      goOn (fetchRows projectId kind state block) fun state =>
        fetchBlocks projectId kind state rest

/-- One turn of `for (;;)`: a statement and all its blocks. -/
def fetchAttempt (projectId : ProjectId) (kind : Option TimeseriesValueKind) (answer : Answer)
    (state : FetchState) : FetchState × Option FetchStop :=
  match answer with
  | .error result => (state, some (.failed result))
  | .ok blocks => fetchBlocks projectId kind state blocks

/-- The loop: a mismatch resets the state and takes the generic projection, whose rows
    never mismatch. -/
def fetchLoop (projectId : ProjectId) (kind : Option TimeseriesValueKind)
    (answer : Option TimeseriesValueKind → Answer) (state : FetchState) :
    FetchState × Option FetchStop :=
  match fetchAttempt projectId kind (answer kind) state with
  | (state, some .typedMismatch) =>
      fetchAttempt projectId none (answer none)
        { state with points := [], timeOrdered := true, previousTime := none }
  | outcome => outcome

/-! ## Sorting the points -/

/-- `requested_order`: the first index of an id stays. -/
def requestedOrders (ids : List SequenceId) : Table SequenceId Nat :=
  ids.zipIdx.foldl (fun orders entry => emplace entry.1 entry.2 orders) KeyedTable.empty

/-- `requested_order.at`, for the ids of the table. -/
def orderAt (orders : Table SequenceId Nat) (point : RawTimeseriesPoint) : Nat :=
  (orders.find point.sequenceId).getD 0

/-- The comparison of the final sort. -/
def requestedOrderLess (orders : Table SequenceId Nat) (left right : RawTimeseriesPoint) : Bool :=
  decide (orderAt orders left < orderAt orders right)

/-- The comparison of the full sort. -/
def historyLess (orders : Table SequenceId Nat) (left right : RawTimeseriesPoint) : Bool :=
  if left.time ≠ right.time then decide (left.time < right.time)
  else decide (orderAt orders left < orderAt orders right)

/-- `std::stable_sort` with a comparison. -/
def stableSort (less : RawTimeseriesPoint → RawTimeseriesPoint → Bool)
    (points : List RawTimeseriesPoint) : List RawTimeseriesPoint :=
  points.insertionSort fun left right => less right left = false

/-- The end of the run of one time. -/
def runFinish (points : List RawTimeseriesPoint) (time : Timestamp) (finish : Nat) : Nat :=
  if h : finish < points.length then
    if points[finish].time = time then runFinish points time (finish + 1) else finish
  else finish
  termination_by points.length - finish

/-- A run ends at its start or behind it. -/
theorem le_runFinish (points : List RawTimeseriesPoint) (time : Timestamp) (finish : Nat) :
    finish ≤ runFinish points time finish := by
  induction finish using runFinish.induct points time with
  | case1 finish h heq ih =>
      rw [runFinish, dif_pos h, if_pos heq]
      omega
  | case2 finish h hne => rw [runFinish, dif_pos h, if_neg hne]
  | case3 finish h => rw [runFinish, dif_neg h]

/-- A stable sort of the points from `first` to `finish`, in place. -/
def sortRange (orders : Table SequenceId Nat) (first finish : Nat)
    (points : List RawTimeseriesPoint) : List RawTimeseriesPoint :=
  points.take first ++ stableSort (requestedOrderLess orders) ((points.take finish).drop first) ++
    points.drop finish

/-- A run of one point is left alone. -/
def sortRun (orders : Table SequenceId Nat) (first finish : Nat)
    (points : List RawTimeseriesPoint) : List RawTimeseriesPoint :=
  if 1 < finish - first then sortRange orders first finish points else points

/-- Sorting a run keeps the number of points. -/
theorem length_sortRun (orders : Table SequenceId Nat) {first finish : Nat}
    {points : List RawTimeseriesPoint} (h : first ≤ finish) :
    (sortRun orders first finish points).length = points.length := by
  rw [sortRun]
  split
  · rw [sortRange, stableSort, List.length_append, List.length_append, List.length_insertionSort,
      List.length_take, List.length_drop, List.length_take, List.length_drop]
    omega
  · rfl

/-- The loop over the runs of equal times. -/
def sortRuns (orders : Table SequenceId Nat) (first : Nat) (points : List RawTimeseriesPoint) :
    List RawTimeseriesPoint :=
  if h : first < points.length then
    sortRuns orders (runFinish points points[first].time (first + 1))
      (sortRun orders first (runFinish points points[first].time (first + 1)) points)
  else points
  termination_by points.length - first
  decreasing_by
    have hle := le_runFinish points points[first].time (first + 1)
    rw [length_sortRun orders (by omega)]
    omega

/-- What is sorted depends on the flag. -/
def orderHistory (ids : List SequenceId) (state : FetchState) : List RawTimeseriesPoint :=
  if state.timeOrdered = false then stableSort (historyLess (requestedOrders ids)) state.points
  else sortRuns (requestedOrders ids) 0 state.points

/-- `queryRaw` on an open connection; the answers of the database are given. -/
def queryHistory (projectId : ProjectId) (ids : List SequenceId) (start finish : Timestamp)
    (granularity : Option Int) (valueKinds : Option (Table SequenceId TimeseriesValueKind))
    (answer : Option TimeseriesValueKind → Answer) (out : TimeseriesBatch) :
    TimeseriesBatch × OperationResult :=
  let out := { out with projectId := projectId }
  if ids.isEmpty then (out, invalidArgument "sequence_ids must not be empty")
  else if finish < start then (out, invalidArgument "query start must not be after end")
  else if ids.any fun sequenceId => sequenceId.isEmpty then
    (out, invalidArgument "sequence_id must not be empty")
  else if projectId.isEmpty then (out, invalidArgument "project_id must not be empty")
  else if start = finish then ({ out with points := [] }, okResult 0 "query returned no rows")
  else if granularity.any fun bucket => decide (bucket ≤ 0) then
    (out, invalidArgument "query granularity must be positive")
  else
    match fetchLoop projectId (typedKind ids valueKinds) answer {} with
    | (_, some (.failed result)) => (out, result)
    | (state, _) =>
        ({ out with points := orderHistory ids state },
          okResult state.points.length "raw query completed")

/-! ## What was read -/

/-- The points of all rows of an answer, or what the first row without a point stops with. -/
def answerPoints (p : ProjectId) (kind : Option TimeseriesValueKind) :
    Answer → Except FetchStop (List RawTimeseriesPoint)
  | .error result => .error (.failed result)
  | .ok blocks => blocks.flatten.mapM (rowPoint p kind)

/-- The points a query reads: those of the typed rows, or, when one of them has another
    type, those of the generic rows. -/
def received (p : ProjectId) (kind : Option TimeseriesValueKind)
    (answer : Option TimeseriesValueKind → Answer) :
    Except FetchStop (List RawTimeseriesPoint) :=
  match answerPoints p kind (answer kind) with
  | .error .typedMismatch => answerPoints p none (answer none)
  | points => points

/-- The flag and the time before, as the points have them. -/
structure Tracked (state : FetchState) : Prop where
  flag : state.timeOrdered = true ↔ Ordered RawTimeseriesPoint.time state.points
  previous : state.previousTime = state.points.getLast?.map RawTimeseriesPoint.time

theorem tracked_empty : Tracked {} := ⟨iff_of_true rfl List.Pairwise.nil, rfl⟩

/-- The loops, from a state, read some points or stop. -/
def Reads (state : FetchState) (outcome : FetchState × Option FetchStop) :
    Except FetchStop (List RawTimeseriesPoint) → Prop
  | .ok points =>
      outcome.2 = none ∧ Tracked outcome.1 ∧ outcome.1.points = state.points ++ points
  | .error stop => outcome.2 = some stop

section Reading

variable {p : ProjectId} {kind : Option TimeseriesValueKind}

/-- A list in the order of its times, one point longer. -/
theorem ordered_snoc {points : List RawTimeseriesPoint} {point : RawTimeseriesPoint} :
    Ordered RawTimeseriesPoint.time (points ++ [point]) ↔
      Ordered RawTimeseriesPoint.time points ∧
        ∀ last ∈ points.getLast?, last.time ≤ point.time := by
  rw [Ordered, List.pairwise_append]
  constructor
  · rintro ⟨hpoints, -, hlast⟩
    exact ⟨hpoints, fun last hmem =>
      hlast last (List.mem_of_mem_getLast? hmem) point (List.mem_singleton_self point)⟩
  · rintro ⟨hpoints, hlast⟩
    refine ⟨hpoints, List.pairwise_singleton .., fun left hleft right hright => ?_⟩
    rw [List.mem_singleton.mp hright]
    rcases List.eq_nil_or_concat points with rfl | ⟨front, last, rfl⟩
    · exact absurd hleft List.not_mem_nil
    · rw [List.concat_eq_append] at hpoints hleft hlast
      have hle := hlast last (by simp)
      rcases List.mem_append.mp hleft with hfront | hl
      · exact ((List.pairwise_append.mp hpoints).2.2 left hfront last
          (List.mem_singleton_self last)).trans hle
      · rw [List.mem_singleton.mp hl]
        exact hle

/-- Noting a point keeps the state in step with its points. -/
theorem Tracked.note {state : FetchState} (h : Tracked state) (point : RawTimeseriesPoint) :
    Tracked { state.noteTime point.time with points := state.points ++ [point] } := by
  refine ⟨?_, ?_⟩
  · show (if (state.previousTime.any fun previous => decide (point.time < previous)) = true
      then false else state.timeOrdered) = true ↔ _
    rw [ordered_snoc, ← h.flag, h.previous]
    cases hlast : state.points.getLast? with
    | none => simp
    | some last =>
        by_cases hlt : point.time < last.time
        · simp [hlt]
        · simp [hlt, not_lt.mp hlt]
  · show some point.time = _
    rw [List.getLast?_append]
    rfl

/-- What a row with a point holds. -/
theorem rowPoint_ok {row : FetchedRow} {point : RawTimeseriesPoint}
    (h : rowPoint p kind row = .ok point) :
    row.time = some point.time ∧ row.valueType.isSome ∧ row.sequenceId = some point.sequenceId := by
  rw [rowPoint] at h
  split at h
  · rename_i time type htime htype
    cases hvalue : rowValue kind type row.columns with
    | error stop =>
        simp only [hvalue] at h
        cases h
    | ok value =>
        simp only [hvalue] at h
        cases hsequence : row.sequenceId with
        | none =>
            simp only [hsequence] at h
            cases h
        | some s =>
            simp only [hsequence] at h
            injection h with h
            rw [← h, htime, htype]
            exact ⟨rfl, rfl, rfl⟩
  · cases h

/-- One row. -/
theorem fetchRow_reads {state : FetchState} (h : Tracked state) (row : FetchedRow) :
    Reads state (fetchRow p kind state row) ((rowPoint p kind row).map fun point => [point]) := by
  rw [fetchRow]
  cases hpoint : rowPoint p kind row with
  | error stop => exact rfl
  | ok point =>
      -- a row with a point has a time, the one that was noted
      obtain ⟨htime, htype, -⟩ := rowPoint_ok hpoint
      obtain ⟨type, htype⟩ := Option.isSome_iff_exists.mp htype
      simp only [htime, htype]
      exact ⟨rfl, h.note point, rfl⟩

/-- Reading on after something was read. -/
theorem Reads.andThen {state : FetchState} {outcome : FetchState × Option FetchStop}
    {points more : Except FetchStop (List RawTimeseriesPoint)}
    {next : FetchState → FetchState × Option FetchStop} (h : Reads state outcome points)
    (hnext : ∀ state, Tracked state → Reads state (next state) more) :
    Reads state (goOn outcome next) (points.bind fun points => more.map (points ++ ·)) := by
  obtain ⟨state', stop⟩ := outcome
  cases points with
  | error e =>
      obtain rfl : stop = some e := h
      exact rfl
  | ok points =>
      obtain ⟨hstop, htracked, hpoints⟩ := h
      obtain rfl : stop = none := hstop
      have hmore := hnext state' htracked
      cases more with
      | error e => exact hmore
      | ok more =>
          obtain ⟨hstop, htracked', hpoints'⟩ := hmore
          refine ⟨hstop, htracked', hpoints'.trans ?_⟩
          rw [hpoints]
          exact List.append_assoc ..

/-- The rows of a block. -/
theorem fetchRows_reads (rows : List FetchedRow) {state : FetchState} (h : Tracked state) :
    Reads state (fetchRows p kind state rows) (rows.mapM (rowPoint p kind)) := by
  induction rows generalizing state with
  | nil => exact ⟨rfl, h, (List.append_nil _).symm⟩
  | cons row rest ih =>
      rw [fetchRows]
      have hread := (@fetchRow_reads p kind state h row).andThen fun state hstate => ih hstate
      rw [List.mapM_cons]
      cases hpoint : rowPoint p kind row with
      | error stop =>
          rw [hpoint] at hread
          exact hread
      | ok point =>
          rw [hpoint] at hread
          exact hread

/-- All blocks. -/
theorem fetchBlocks_reads (blocks : List (List FetchedRow)) {state : FetchState}
    (h : Tracked state) :
    Reads state (fetchBlocks p kind state blocks) (blocks.flatten.mapM (rowPoint p kind)) := by
  induction blocks generalizing state with
  | nil => exact ⟨rfl, h, (List.append_nil _).symm⟩
  | cons block rest ih =>
      rw [fetchBlocks]
      have hread := (@fetchRows_reads p kind block state h).andThen fun state hstate => ih hstate
      rw [List.flatten_cons, List.mapM_append]
      exact hread

theorem fetchAttempt_reads (answer : Answer) {state : FetchState} (h : Tracked state) :
    Reads state (fetchAttempt p kind answer state) (answerPoints p kind answer) := by
  cases answer with
  | error result => exact rfl
  | ok blocks => exact fetchBlocks_reads blocks h

/-- A row of the generic projection never mismatches. -/
theorem rowPoint_generic (row : FetchedRow) : rowPoint p none row ≠ .error .typedMismatch := by
  rw [rowPoint]
  split
  · rename_i time type _ _
    rw [rowValue]
    cases columnValue row.columns (kindOfType type) with
    | none =>
        intro h
        cases h
    | some value =>
        cases row.sequenceId with
        | none =>
            intro h
            cases h
        | some s =>
            intro h
            cases h
  · intro h
    cases h

/-- A list fails where one of its rows does. -/
theorem mapM_error {rows : List FetchedRow} {stop : FetchStop}
    (h : rows.mapM (rowPoint p kind) = .error stop) :
    ∃ row ∈ rows, rowPoint p kind row = .error stop := by
  induction rows with
  | nil => cases h
  | cons row rest ih =>
      rw [List.mapM_cons] at h
      cases hpoint : rowPoint p kind row with
      | error e =>
          rw [hpoint] at h
          injection h with h
          exact ⟨row, List.mem_cons_self .., h ▸ hpoint⟩
      | ok point =>
          rw [hpoint] at h
          cases hrest : rest.mapM (rowPoint p kind) with
          | ok points =>
              rw [hrest] at h
              cases h
          | error e =>
              rw [hrest] at h
              injection h with h
              obtain ⟨row', hrow', he⟩ := ih (h ▸ hrest)
              exact ⟨row', List.mem_cons_of_mem row hrow', he⟩

/-- The generic projection has no type to miss. -/
theorem answerPoints_generic (answer : Answer) :
    answerPoints p none answer ≠ .error .typedMismatch := by
  cases answer with
  | error result =>
      intro h
      cases h
  | ok blocks =>
      intro h
      obtain ⟨row, -, hrow⟩ := @mapM_error p none blocks.flatten _ h
      exact rowPoint_generic row hrow

/-- The two attempts read what the rows hold; the flag is about the points that are left. -/
theorem fetchLoop_reads (answer : Option TimeseriesValueKind → Answer) :
    Reads {} (fetchLoop p kind answer {}) (received p kind answer) := by
  have hfirst := @fetchAttempt_reads p kind (answer kind) {} tracked_empty
  have hsecond := @fetchAttempt_reads p none (answer none) {} tracked_empty
  rw [fetchLoop, received]
  cases hattempt : fetchAttempt p kind (answer kind) {} with
  | mk state stop =>
      rw [hattempt] at hfirst
      cases hpoints : answerPoints p kind (answer kind) with
      | ok points =>
          rw [hpoints] at hfirst
          obtain rfl : stop = none := hfirst.1
          exact hfirst
      | error e =>
          rw [hpoints] at hfirst
          obtain rfl : stop = some e := hfirst
          cases e with
          | typedMismatch => exact hsecond
          | failed result => exact rfl

end Reading

/-! ## The order of the points -/

/-- What the points are sorted by: the time, then the first place of the id in the
    request. -/
def historyKey (ids : List SequenceId) (point : RawTimeseriesPoint) : Timestamp ×ₗ Nat :=
  toLex (point.time, ids.idxOf point.sequenceId)

/-- The table holds the first place of every id. -/
theorem requestedOrders_find {ids : List SequenceId} {s : SequenceId} (h : s ∈ ids) :
    (requestedOrders ids).find s = some (ids.idxOf s) := by
  have hfold : ∀ (ids : List SequenceId) (n : Nat) (orders : Table SequenceId Nat),
      ((ids.zipIdx n).foldl (fun orders entry => emplace entry.1 entry.2 orders) orders).find s =
        (orders.find s).or (if s ∈ ids then some (n + ids.idxOf s) else none) := by
    intro ids
    induction ids with
    | nil =>
        intro n orders
        exact (Option.or_none).symm
    | cons first rest ih =>
        intro n orders
        rw [List.zipIdx_cons, List.foldl_cons, ih]
        rw [emplace]
        by_cases heq : first = s
        · subst heq
          rw [if_pos (List.mem_cons_self ..), List.idxOf_cons_self]
          cases hfind : orders.find first with
          | none => simp
          | some found => simp [hfind]
        · have hkept : ∀ v, (put first v orders).find s = orders.find s := fun v =>
            find_put_of_ne (fun e => heq e.symm) v orders
          have hrest : (if s ∈ rest then some (n + 1 + rest.idxOf s) else none) =
              if s ∈ first :: rest then some (n + (first :: rest).idxOf s) else none := by
            by_cases hmem : s ∈ rest
            · rw [if_pos hmem, if_pos (List.mem_cons_of_mem first hmem),
                List.idxOf_cons_ne _ heq]
              congr 1
              omega
            · rw [if_neg hmem, if_neg]
              intro hcons
              rcases List.mem_cons.mp hcons with e | hmem'
              · exact heq e.symm
              · exact hmem hmem'
          rw [hrest]
          split
          · rfl
          · rw [hkept]
  rw [requestedOrders, hfold ids 0, if_pos h, find_empty, Nat.zero_add]
  rfl

section Order

variable {orders : Table SequenceId Nat}

/-- The key the comparisons read from the table. -/
def tableKey (orders : Table SequenceId Nat) (point : RawTimeseriesPoint) : Timestamp ×ₗ Nat :=
  toLex (point.time, orderAt orders point)

/-- The full sort. -/
theorem fullSort_stable (points : List RawTimeseriesPoint) :
    StableSortOf (tableKey orders) points (stableSort (historyLess orders) points) := by
  refine stableSortOf_insertionSort fun left right => ?_
  rw [historyLess, tableKey, tableKey, Prod.Lex.toLex_le_toLex]
  by_cases htime : right.time = left.time
  · rw [if_neg (not_not.mpr htime), decide_eq_false_iff_not, not_lt, htime]
    simp
  · rw [if_pos htime, decide_eq_false_iff_not, not_lt]
    constructor
    · intro hle
      exact Or.inl (lt_of_le_of_ne hle (Ne.symm htime))
    · rintro (hlt | ⟨heq, -⟩)
      · exact hlt.le
      · exact absurd heq.symm htime

/-- The end of a run: nothing but the time before it, another time there. -/
theorem runFinish_spec {points : List RawTimeseriesPoint} {time : Timestamp} {finish : Nat}
    (hle : finish ≤ points.length) :
    runFinish points time finish ≤ points.length ∧
      (∀ point ∈ (points.take (runFinish points time finish)).drop finish, point.time = time) ∧
        ∀ h : runFinish points time finish < points.length,
          points[runFinish points time finish].time ≠ time := by
  induction finish using runFinish.induct points time with
  | case1 finish h heq ih =>
      have hstep : runFinish points time finish = runFinish points time (finish + 1) := by
        rw [runFinish, dif_pos h, if_pos heq]
      obtain ⟨hend, hrun, hafter⟩ := ih h
      have hlt := le_runFinish points time (finish + 1)
      simp only [hstep]
      refine ⟨hend, fun point hpoint => ?_, hafter⟩
      rw [List.drop_eq_getElem_cons (by rw [List.length_take]; omega)] at hpoint
      rcases List.mem_cons.mp hpoint with e | hmem
      · rw [e, List.getElem_take]
        exact heq
      · exact hrun point hmem
  | case2 finish h hne =>
      have hstop : runFinish points time finish = finish := by
        rw [runFinish, dif_pos h, if_neg hne]
      simp only [hstop]
      refine ⟨hle, fun point hpoint => ?_, fun _ => hne⟩
      rw [List.drop_eq_nil_of_le (by rw [List.length_take]; omega)] at hpoint
      exact absurd hpoint List.not_mem_nil
  | case3 finish h =>
      have hstop : runFinish points time finish = finish := by rw [runFinish, dif_neg h]
      simp only [hstop]
      refine ⟨hle, fun point hpoint => ?_, fun h' => absurd h' h⟩
      rw [List.drop_eq_nil_of_le (by rw [List.length_take]; omega)] at hpoint
      exact absurd hpoint List.not_mem_nil

theorem cut {α : Type} {xs : List α} {i j : Nat} (h : i ≤ j) :
    xs.take i ++ ((xs.take j).drop i ++ xs.drop j) = xs := by
  have htake : xs.take i = (xs.take j).take i := by rw [List.take_take, min_eq_left h]
  rw [← List.append_assoc, htake, List.take_append_drop, List.take_append_drop]

/-- Sorting a run of one point changes nothing, so every run may be sorted. -/
theorem sortRun_eq {first finish : Nat} {points : List RawTimeseriesPoint} (h : first < finish)
    (hle : finish ≤ points.length) :
    sortRun orders first finish points = sortRange orders first finish points := by
  rw [sortRun]
  split
  · rfl
  · have hlength : ((points.take finish).drop first).length = 1 := by
      rw [List.length_drop, List.length_take]
      omega
    obtain ⟨point, hpoint⟩ := List.length_eq_one_iff.mp hlength
    have hsingle : stableSort (requestedOrderLess orders) [point] = [point] := rfl
    rw [sortRange, hpoint, hsingle, ← hpoint, List.append_assoc, cut h.le]

/-- The points of one time, sorted by their ids alone. -/
theorem run_stable {time : Timestamp} {run : List RawTimeseriesPoint}
    (h : ∀ point ∈ run, point.time = time) :
    StableSortOf (tableKey orders) run (stableSort (requestedOrderLess orders) run) := by
  refine StableSortOf.lex h (stableSortOf_insertionSort fun left right => ?_)
  rw [requestedOrderLess, decide_eq_false_iff_not, not_lt]

/-- The loop over the runs, from any index where what is left is in time order. -/
theorem sortRuns_stable (first : Nat) (points : List RawTimeseriesPoint)
    (h : Ordered RawTimeseriesPoint.time (points.drop first)) :
    ∃ sorted, sortRuns orders first points = points.take first ++ sorted ∧
      StableSortOf (tableKey orders) (points.drop first) sorted := by
  induction first, points using sortRuns.induct orders with
  | case1 first points hlt ih =>
      have hfinish := le_runFinish points points[first].time (first + 1)
      obtain ⟨hend, hrun, hafter⟩ := @runFinish_spec points points[first].time (first + 1) hlt
      rw [sortRuns, dif_pos hlt]
      generalize runFinish points points[first].time (first + 1) = finish at *
      rw [sortRun_eq (by omega) hend, sortRange] at ih ⊢
      have hprefix : (points.take first ++
          stableSort (requestedOrderLess orders) ((points.take finish).drop first)).length =
            finish := by
        rw [stableSort, List.length_append, List.length_insertionSort, List.length_drop,
          List.length_take, List.length_take]
        omega
      have htake : ∀ front rest : List RawTimeseriesPoint, front.length = finish →
          (front ++ rest).take finish = front := fun _ _ h => List.take_left' h
      have hdrop : ∀ front rest : List RawTimeseriesPoint, front.length = finish →
          (front ++ rest).drop finish = rest := fun _ _ h => List.drop_left' h
      rw [htake _ _ hprefix, hdrop _ _ hprefix] at ih
      -- the rest of the run has the time of its first point
      have htimes : ∀ point ∈ (points.take finish).drop first,
          point.time = points[first].time := by
        intro point hpoint
        rw [List.drop_eq_getElem_cons (by rw [List.length_take]; omega)] at hpoint
        rcases List.mem_cons.mp hpoint with e | hmem
        · rw [e, List.getElem_take]
        · exact hrun point hmem
      have hsplit : points.drop first = (points.take finish).drop first ++ points.drop finish := by
        have hall := @cut _ points first finish (by omega)
        exact List.append_cancel_left ((List.take_append_drop first points).trans hall.symm)
      rw [hsplit] at h
      obtain ⟨-, hrest, hcross⟩ := List.pairwise_append.mp h
      obtain ⟨sorted, hresult, hstable⟩ := ih hrest
      refine ⟨_, hresult.trans (List.append_assoc ..), ?_⟩
      rw [hsplit]
      refine (run_stable htimes).append hstable fun left hleft right hright => ?_
      refine (Prod.Lex.toLex_lt_toLex.mpr (Or.inl ?_)).le
      -- what follows is later: the next point has another time, and is not before
      rw [htimes left hleft]
      have hhead : finish < points.length := by
        by_contra hnone
        rw [List.drop_eq_nil_of_le (not_lt.mp hnone)] at hright
        exact List.not_mem_nil hright
      rw [List.drop_eq_getElem_cons hhead] at hright hrest hcross
      have hnext : points[first].time < points[finish].time := by
        refine lt_of_le_of_ne ?_ (Ne.symm (hafter hhead))
        rw [← htimes left hleft]
        exact hcross left hleft _ (List.mem_cons_self ..)
      rcases List.mem_cons.mp hright with e | hmem
      · rw [e]
        exact hnext
      · exact hnext.trans_le ((List.pairwise_cons.mp hrest).1 right hmem)
  | case2 first points hlt =>
      rw [sortRuns, dif_neg hlt, List.drop_eq_nil_of_le (not_lt.mp hlt),
        List.take_of_length_le (not_lt.mp hlt)]
      exact ⟨[], (List.append_nil points).symm, StableSortOf.nil⟩

end Order

/-- Either sort is the stable sort by time and place in the request. -/
theorem orderHistory_stable {ids : List SequenceId} {state : FetchState} (h : Tracked state)
    (hids : ∀ point ∈ state.points, point.sequenceId ∈ ids) :
    StableSortOf (historyKey ids) state.points (orderHistory ids state) := by
  have hkey : ∀ point ∈ state.points,
      tableKey (requestedOrders ids) point = historyKey ids point := by
    intro point hpoint
    rw [tableKey, orderAt, requestedOrders_find (hids point hpoint)]
    rfl
  refine StableSortOf.congr_key ?_ hkey
  rw [orderHistory]
  split
  · exact fullSort_stable state.points
  · rename_i hflag
    obtain ⟨sorted, hsorted, hstable⟩ := @sortRuns_stable (requestedOrders ids) 0 state.points
      (h.flag.mp (Bool.not_eq_false _ |>.mp hflag))
    rw [hsorted]
    exact hstable

/-! ## The result of a query -/

/-- What `queryRaw` checks before it asks the database. -/
structure HistoryRequest (p : ProjectId) (ids : List SequenceId) (start finish : Timestamp)
    (granularity : Option Int) : Prop where
  requested : ids ≠ []
  named : ∀ s ∈ ids, s ≠ ""
  project : p ≠ ""
  interval : start < finish
  positive : ∀ bucket ∈ granularity, 0 < bucket

/-- The ids of all rows are requested ones. -/
def RequestedRows (ids : List SequenceId) (answer : Option TimeseriesValueKind → Answer) : Prop :=
  ∀ kind blocks, answer kind = .ok blocks → ∀ row ∈ blocks.flatten,
    ∀ s ∈ row.sequenceId, s ∈ ids

section Result

variable {p : ProjectId} {ids : List SequenceId} {start finish : Timestamp}
  {granularity : Option Int} {answer : Option TimeseriesValueKind → Answer}

/-- Each point comes from a row. -/
theorem mapM_ok {kind : Option TimeseriesValueKind} {rows : List FetchedRow}
    {points : List RawTimeseriesPoint} (h : rows.mapM (rowPoint p kind) = .ok points)
    {point : RawTimeseriesPoint} (hpoint : point ∈ points) :
    ∃ row ∈ rows, rowPoint p kind row = .ok point := by
  induction rows generalizing points with
  | nil =>
      injection h with h
      rw [← h] at hpoint
      exact absurd hpoint List.not_mem_nil
  | cons row rest ih =>
      rw [List.mapM_cons] at h
      cases hfirst : rowPoint p kind row with
      | error e =>
          rw [hfirst] at h
          cases h
      | ok first =>
          rw [hfirst] at h
          cases hrest : rest.mapM (rowPoint p kind) with
          | error e =>
              rw [hrest] at h
              cases h
          | ok more =>
              rw [hrest] at h
              injection h with h
              rw [← h] at hpoint
              rcases List.mem_cons.mp hpoint with e | hmem
              · exact ⟨row, List.mem_cons_self .., e ▸ hfirst⟩
              · obtain ⟨row', hrow', hok⟩ := ih hrest hmem
                exact ⟨row', List.mem_cons_of_mem row hrow', hok⟩

/-- The points belong to requested sequences. -/
theorem answerPoints_requested (hrows : RequestedRows ids answer)
    {kind : Option TimeseriesValueKind} {points : List RawTimeseriesPoint}
    (h : answerPoints p kind (answer kind) = .ok points) :
    ∀ point ∈ points, point.sequenceId ∈ ids := by
  intro point hpoint
  cases hanswer : answer kind with
  | error result =>
      rw [hanswer] at h
      cases h
  | ok blocks =>
      rw [hanswer] at h
      obtain ⟨row, hrow, hok⟩ := mapM_ok h hpoint
      exact hrows kind blocks hanswer row hrow _ (rowPoint_ok hok).2.2

theorem received_requested (hrows : RequestedRows ids answer)
    {kind : Option TimeseriesValueKind} {points : List RawTimeseriesPoint}
    (h : received p kind answer = .ok points) : ∀ point ∈ points, point.sequenceId ∈ ids := by
  rw [received] at h
  split at h
  · exact answerPoints_requested hrows h
  · exact answerPoints_requested hrows h

/-- What stops a query is a failure of the database. -/
theorem received_stop {kind : Option TimeseriesValueKind} {stop : FetchStop}
    (h : received p kind answer = .error stop) : ∃ result, stop = .failed result := by
  cases stop with
  | failed result => exact ⟨result, rfl⟩
  | typedMismatch =>
      rw [received] at h
      split at h
      · exact absurd h (answerPoints_generic _)
      · rename_i hne
        exact absurd h hne

/-- A checked request gets as far as the rows. -/
theorem queryHistory_checked (hrequest : HistoryRequest p ids start finish granularity)
    (valueKinds : Option (Table SequenceId TimeseriesValueKind)) (out : TimeseriesBatch) :
    queryHistory p ids start finish granularity valueKinds answer out =
      match fetchLoop p (typedKind ids valueKinds) answer {} with
      | (_, some (.failed result)) => ({ out with projectId := p }, result)
      | (state, _) =>
          ({ out with projectId := p, points := orderHistory ids state },
            okResult state.points.length "raw query completed") := by
  have hids : ¬ ids.isEmpty = true := fun h => hrequest.requested (List.isEmpty_iff.mp h)
  have hnamed : ¬ (ids.any fun sequenceId => sequenceId.isEmpty) = true := by
    intro h
    obtain ⟨s, hs, hempty⟩ := List.any_eq_true.mp h
    exact hrequest.named s hs (String.isEmpty_iff.mp hempty)
  have hproject : ¬ p.isEmpty = true := fun h => hrequest.project (String.isEmpty_iff.mp h)
  have hpositive : ¬ (granularity.any fun bucket => decide (bucket ≤ 0)) = true := by
    intro h
    obtain ⟨bucket, hbucket, hle⟩ := Option.any_eq_true .. |>.mp h
    exact absurd (of_decide_eq_true hle) (not_le.mpr (hrequest.positive bucket hbucket))
  rw [queryHistory, if_neg hids, if_neg (not_lt.mpr hrequest.interval.le), if_neg hnamed,
    if_neg hproject, if_neg hrequest.interval.ne, if_neg hpositive]

/-- **The order of a history query.**  The rows of the attempt that was read to its end
    come out stably sorted by time and first place of their id in the request; the flag,
    which chooses between the two sorts, says whether they came in time order. -/
theorem history_order_exact (hrequest : HistoryRequest p ids start finish granularity)
    (hrows : RequestedRows ids answer)
    (valueKinds : Option (Table SequenceId TimeseriesValueKind)) (out : TimeseriesBatch) :
    (∀ points, received p (typedKind ids valueKinds) answer = .ok points →
      ∃ state, fetchLoop p (typedKind ids valueKinds) answer {} = (state, none) ∧
        (state.timeOrdered = true ↔ Ordered RawTimeseriesPoint.time points) ∧
        StableSortOf (historyKey ids) points (orderHistory ids state) ∧
        queryHistory p ids start finish granularity valueKinds answer out =
          ({ out with projectId := p, points := orderHistory ids state },
            okResult points.length "raw query completed")) ∧
    (∀ stop, received p (typedKind ids valueKinds) answer = .error stop →
      ∃ result, stop = .failed result ∧
        queryHistory p ids start finish granularity valueKinds answer out =
          ({ out with projectId := p }, result)) := by
  have hread := @fetchLoop_reads p (typedKind ids valueKinds) answer
  rw [queryHistory_checked hrequest]
  cases hloop : fetchLoop p (typedKind ids valueKinds) answer {} with
  | mk state stop =>
      rw [hloop] at hread
      constructor
      · intro points hpoints
        rw [hpoints] at hread
        obtain ⟨hstop, htracked, hstate⟩ := hread
        obtain rfl : stop = none := hstop
        obtain rfl : state.points = points := hstate
        exact ⟨state, rfl, htracked.flag,
          orderHistory_stable htracked (received_requested hrows hpoints), rfl⟩
      · intro e he
        rw [he] at hread
        obtain rfl : stop = some e := hread
        obtain ⟨result, rfl⟩ := received_stop he
        exact ⟨result, rfl, rfl⟩

end Result

/-- A typed attempt out of time order that ends in a row of another type; the generic rows
    are in order, two of them at one time. -/
def retryAnswer (kind : Option TimeseriesValueKind) : Answer :=
  if kind.isSome then
    .ok [[⟨some 5, some 2, some "a", { bValue := some true }⟩],
      [⟨some 3, some 1, some "a", { iValue := some 7 }⟩]]
  else
    .ok [[⟨some 3, some 1, some "a", { iValue := some 7 }⟩,
      ⟨some 5, some 2, some "a", { bValue := some true }⟩],
      [⟨some 5, some 2, some "b", { bValue := some false }⟩]]

theorem retryAnswer_requested : RequestedRows ["b", "a", "b"] retryAnswer := by
  intro kind blocks hblocks row hrow s hs
  have hid : row.sequenceId = some "a" ∨ row.sequenceId = some "b" := by
    cases kind with
    | none =>
        injection hblocks with hblocks
        subst hblocks
        simp only [List.flatten_cons, List.flatten_nil, List.append_nil, List.mem_append,
          List.mem_cons, List.not_mem_nil, or_false] at hrow
        rcases hrow with (rfl | rfl) | rfl
        · exact Or.inl rfl
        · exact Or.inl rfl
        · exact Or.inr rfl
    | some kind =>
        injection hblocks with hblocks
        subst hblocks
        simp only [List.flatten_cons, List.flatten_nil, List.append_nil, List.mem_append,
          List.mem_cons, List.not_mem_nil, or_false] at hrow
        rcases hrow with rfl | rfl
        · exact Or.inl rfl
        · exact Or.inl rfl
  rcases hid with h | h
  · obtain rfl : "a" = s := Option.some.inj (h.symm.trans hs)
    decide
  · obtain rfl : "b" = s := Option.some.inj (h.symm.trans hs)
    decide

/-- A mixed answer, read again with the generic projection. -/
theorem history_order_exact_retry :
    (queryHistory "p" ["b", "a", "b"] 0 10 none
        (some (put "a" .bool (put "b" .bool KeyedTable.empty))) retryAnswer {}).1.points =
      [{ time := 3, sequenceId := "a", value := .int64 7, projectId := "p" },
        { time := 5, sequenceId := "b", value := .bool false, projectId := "p" },
        { time := 5, sequenceId := "a", value := .bool true, projectId := "p" }] := by
  obtain ⟨hread, -⟩ := @history_order_exact "p" ["b", "a", "b"] 0 10 none retryAnswer
    ⟨by decide, by decide, by decide, by decide, by simp⟩ retryAnswer_requested
    (some (put "a" .bool (put "b" .bool KeyedTable.empty))) {}
  obtain ⟨state, -, -, hstable, hquery⟩ := hread _ rfl
  rw [hquery]
  exact hstable.unique (stableSortOf_insertionSort fun _ _ => Iff.rfl) |>.trans (by decide)

/-! ## The rows of the database -/

/-- A row of the database as a block has it. -/
def fetchedRow (row : ResultRow) : FetchedRow :=
  { time := some row.time
    valueType := some row.valueType
    sequenceId := some row.sequenceId
    columns := row.columns }

/-- The answers of a database to a list of ids, cut into blocks. -/
def databaseAnswer (ids : List SequenceId) (blocks : Bool → List (List FetchedRow))
    (kind : Option TimeseriesValueKind) : Answer :=
  match readSequenceList (cString (sequenceList ids)) with
  | none => .error (internalError "query raw data: syntax error")
  | some _ => .ok (blocks kind.isSome)

section Database

variable {p : ProjectId}

/-- A row of the typed projection. -/
theorem rowPoint_typed (kind : TimeseriesValueKind) (row : ResultRow) :
    rowPoint p (some kind) (fetchedRow row) =
      (decodeTyped p kind row).elim (.error .typedMismatch) .ok := by
  rw [decodeTyped, rowPoint, fetchedRow]
  simp only [rowValue]
  by_cases htype : row.valueType ≠ valueTypeCode kind
  · rw [if_pos htype, if_pos htype]
    rfl
  · rw [if_neg htype, if_neg htype]
    cases columnValue row.columns kind with
    | none => rfl
    | some value => rfl

/-- A row of the generic projection. -/
theorem rowPoint_untyped (row : ResultRow) :
    rowPoint p none (fetchedRow row) = (decodeGeneric p row).elim
      (.error (.failed (internalError "query raw data returned an invalid typed value"))) .ok := by
  rw [decodeGeneric, rowPoint, fetchedRow]
  simp only [rowValue]
  cases columnValue row.columns (kindOfType row.valueType) with
  | none => rfl
  | some value => rfl

/-- A map that fails with one error is a map into an option. -/
theorem mapM_elim {kind : Option TimeseriesValueKind}
    {decode : ResultRow → Option RawTimeseriesPoint} {stop : FetchStop} (h : ∀ row, rowPoint p kind (fetchedRow row) =
      (decode row).elim (.error stop) .ok) (rows : List ResultRow) :
    (rows.map fetchedRow).mapM (rowPoint p kind) = (rows.mapM decode).elim (.error stop) .ok := by
  induction rows with
  | nil => rfl
  | cons row rest ih =>
      rw [List.map_cons, List.mapM_cons, List.mapM_cons, ih, h]
      cases decode row with
      | none => rfl
      | some point => cases rest.mapM decode <;> rfl

/-- What is received is what the fetch loops over the database find. -/
theorem received_fetchPoints {kind : Option TimeseriesValueKind}
    {answer : Option TimeseriesValueKind → Answer} {rows : List ResultRow}
    {arrange : Bool → List ResultRow → List ResultRow} {blocks : Bool → List (List FetchedRow)}
    (hanswer : ∀ kind, answer kind = .ok (blocks kind.isSome))
    (hblocks : ∀ typed, (blocks typed).flatten = (arrange typed rows).map fetchedRow) :
    received p kind answer = (fetchPoints p kind arrange rows).elim
      (.error (.failed (internalError "query raw data returned an invalid typed value"))) .ok := by
  have hgeneric : answerPoints p none (answer none) =
      ((arrange false rows).mapM (decodeGeneric p)).elim
        (.error (.failed (internalError "query raw data returned an invalid typed value"))) .ok := by
    rw [hanswer]
    show (blocks false).flatten.mapM (rowPoint p none) = _
    rw [hblocks, mapM_elim rowPoint_untyped]
  cases kind with
  | none =>
      rw [received, hgeneric, fetchPoints, Option.bind_none, Option.none_or]
      cases (arrange false rows).mapM (decodeGeneric p) <;> rfl
  | some kind =>
      have htyped : answerPoints p (some kind) (answer (some kind)) =
          ((arrange true rows).mapM (decodeTyped p kind)).elim (.error .typedMismatch) .ok := by
        rw [hanswer]
        show (blocks true).flatten.mapM (rowPoint p (some kind)) = _
        rw [hblocks, mapM_elim (rowPoint_typed kind)]
      rw [received, htyped, fetchPoints, Option.bind_some]
      cases (arrange true rows).mapM (decodeTyped p kind) with
      | none => exact hgeneric
      | some points => rfl

/-- The loop over the runs, as the cold store has it. -/
theorem sortEqualTimes_stable (ids : List SequenceId) (points : List RawTimeseriesPoint)
    (h : Ordered RawTimeseriesPoint.time points) :
    StableSortOf (historyKey ids) points (sortEqualTimes ids points) := by
  induction points using sortEqualTimes.induct with
  | case1 =>
      rw [sortEqualTimes]
      exact StableSortOf.nil
  | case2 first rest ih =>
      rw [sortEqualTimes]
      obtain ⟨hfirst, hrest⟩ := List.pairwise_cons.mp h
      have heq : ∀ point ∈ (first :: rest).takeWhile
          (fun point => decide (point.time = first.time)), point.time = first.time :=
        fun _ => firstRun_time
      have hafter := (StableSortOf.lex heq (stableSortOf_insertionSort fun _ _ => Iff.rfl)).append
        (ih (hrest.sublist (List.dropWhile_sublist _))) fun left hleft right hright => by
          refine (Prod.Lex.toLex_lt_toLex.mpr (Or.inl ?_)).le
          rw [heq left hleft]
          exact time_after_run hrest hfirst hright
      rw [firstRun_append] at hafter
      exact hafter

/-- The order of the cold store is the same stable sort. -/
theorem orderPoints_stable (ids : List SequenceId) (points : List RawTimeseriesPoint) :
    StableSortOf (historyKey ids) points (orderPoints ids points) := by
  rw [orderPoints]
  split
  · rename_i hordered
    exact sortEqualTimes_stable ids points (timeOrdered_pairwise hordered)
  · refine stableSortOf_insertionSort fun left right => ?_
    rw [historyKey, historyKey, Prod.Lex.toLex_le_toLex]
    exact Iff.rfl

/-- The query selects requested sequences. -/
theorem selectRows_requested {stable : String} {ids : List SequenceId} {start finish : Timestamp}
    {database : Database} {row : ResultRow}
    (h : row ∈ selectRows stable ids start finish database) : row.sequenceId ∈ ids := by
  obtain ⟨name, -, hrow⟩ := List.mem_flatMap.mp h
  cases hchild : database.find name with
  | none =>
      rw [hchild] at hrow
      exact absurd hrow List.not_mem_nil
  | some child =>
      rw [hchild, tableRows] at hrow
      split at hrow
      · rename_i hwanted
        obtain ⟨time, -, htime⟩ := List.mem_filterMap.mp hrow
        obtain ⟨columns, -, rfl⟩ := Option.map_eq_some_iff.mp htime
        exact hwanted.2
      · exact absurd hrow List.not_mem_nil

/-- The cold query over a database is a history query over its answers, however the rows
    are cut into blocks. -/
theorem queryRaw_eq_queryHistory (baseName : String) {ids : List SequenceId}
    {start finish : Timestamp} (kinds : Option (Table SequenceId TimeseriesValueKind))
    {arrange : Bool → List ResultRow → List ResultRow} {database : Database}
    (out : TimeseriesBatch) {blocks : Bool → List (List FetchedRow)}
    (harr : ∀ typed rows, (arrange typed rows).Perm rows)
    (hblocks : ∀ typed, (blocks typed).flatten =
      (arrange typed (selectRows (projectStableName baseName p) ids start finish database)).map
        fetchedRow) :
    queryRaw baseName p ids start finish kinds arrange database out =
      queryHistory p ids start finish none kinds (databaseAnswer ids blocks) out := by
  rw [queryRaw, queryHistory]
  simp only
  split
  · rfl
  rename_i hids
  have hread := readSequenceList_cString fun h => hids (List.isEmpty_iff.mpr h)
  split
  · rfl
  split
  · rfl
  split
  · rfl
  split
  · rfl
  refine Eq.trans ?_ (if_neg (by simp)).symm
  split at hread
  · -- the statement ends inside a literal
    have hanswer : ∀ kind, databaseAnswer ids blocks kind =
        .error (internalError "query raw data: syntax error") := by
      intro kind
      rw [databaseAnswer, hread]
    rw [hread, fetchLoop, hanswer, fetchAttempt]
  · have hanswer : ∀ kind, databaseAnswer ids blocks kind = .ok (blocks kind.isSome) := by
      intro kind
      rw [databaseAnswer, hread]
    have hrows : RequestedRows ids (databaseAnswer ids blocks) := by
      intro kind found hfound row hrow s hs
      rw [hanswer] at hfound
      injection hfound with hfound
      rw [← hfound, hblocks] at hrow
      obtain ⟨stored, hstored, rfl⟩ := List.mem_map.mp hrow
      obtain rfl : stored.sequenceId = s := Option.some.inj hs
      exact selectRows_requested ((harr kind.isSome _).mem_iff.mp hstored)
    have hloop := @fetchLoop_reads p (typedKind ids kinds) (databaseAnswer ids blocks)
    rw [received_fetchPoints hanswer hblocks] at hloop
    rw [hread]
    cases hfetch : fetchPoints p (typedKind ids kinds) arrange
        (selectRows (projectStableName baseName p) ids start finish database) with
    | none =>
        rw [hfetch] at hloop
        cases hstate : fetchLoop p (typedKind ids kinds) (databaseAnswer ids blocks) {} with
        | mk state stop =>
            rw [hstate] at hloop
            obtain rfl : stop = _ := hloop
            simp only [hfetch]
            rfl
    | some points =>
        rw [hfetch] at hloop
        cases hstate : fetchLoop p (typedKind ids kinds) (databaseAnswer ids blocks) {} with
        | mk state stop =>
            rw [hstate] at hloop
            obtain ⟨hstop, htracked, hpoints⟩ := hloop
            obtain rfl : stop = none := hstop
            obtain rfl : state.points = points := hpoints
            have hreceived := @received_fetchPoints p (typedKind ids kinds) _ _ _ _ hanswer hblocks
            rw [hfetch] at hreceived
            have hrequested := received_requested hrows hreceived
            simp only [hfetch]
            rw [finishQuery, (orderPoints_stable ids state.points).unique
              (orderHistory_stable htracked hrequested)]

end Database

end HistoryOrder
