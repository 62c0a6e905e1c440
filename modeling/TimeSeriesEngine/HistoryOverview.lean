import TimeSeriesEngine.Library.Grouping
import TimeSeriesEngine.ColdRoundTrip
import TimeSeriesEngine.HistoryOrder
import Mathlib.Data.String.Basic
import Mathlib.Algebra.Order.BigOperators.Group.List

/-!
# The overview of the history

The overview query has the database count the points of each sequence and find its first and
last time, and sums these up itself.

* `queryHistoryOverview` — the loop over the rows of an answer, and the order of the series,
  which throws for one that was not requested;
* `overviewAnswer` — what the database answers, in an order of its own;
* `Summarises` — the overview tells the size and the bounds of some points;
* `overview_exact` — of those the history has written.
-/

namespace HistoryOverview

open TseTypes KeyedTable HotWindow OrderedSeries Grouping TaosClient WindowUpdate
open HistoryOrder (requestedOrders requestedOrders_find)

/-! ## The query -/

/-- Which sequences and which times an overview is asked for; none in particular, all. -/
structure HistoryOverviewQuery where
  sequenceIds : List SequenceId := []
  startTime : Option Timestamp := none
  endTime : Option Timestamp := none
  projectId : ProjectId := ""

/-- One sequence of the overview. -/
structure HistorySeriesSummary where
  sequenceId : SequenceId
  pointCount : Nat := 0
  firstTime : Option Timestamp := none
  lastTime : Option Timestamp := none
  deriving DecidableEq

/-- `HistoryOverview`: the summaries, and all of them together. -/
structure Overview where
  totalPointCount : Nat := 0
  sequenceCount : Nat := 0
  columnNames : List SequenceId := []
  firstTime : Option Timestamp := none
  lastTime : Option Timestamp := none
  series : List HistorySeriesSummary := []
  projectId : ProjectId := ""

/-- A row of the answer; a null cell is `none`. -/
structure OverviewRow where
  sequenceId : Option SequenceId
  pointCount : Option Int
  firstTime : Option Timestamp
  lastTime : Option Timestamp

/-- `std::numeric_limits<std::size_t>::max()`. -/
def sizeMax : Nat := 2 ^ 64 - 1

/-- The checks of a row.  A null id has no length. -/
def readSummary (row : OverviewRow) : Except String HistorySeriesSummary :=
  match row.sequenceId with
  | none => .error "history overview did not return a sequence length"
  | some sequenceId =>
      if sequenceId.isEmpty then .error "history overview did not return a sequence length"
      else
        match row.pointCount, row.firstTime, row.lastTime with
        | some count, some first, some last =>
            if count < 0 ∨ sizeMax < count.toNat then
              .error "history overview returned an invalid point count"
            else
              .ok
                { sequenceId := sequenceId
                  pointCount := count.toNat
                  firstTime := some first
                  lastTime := some last }
        | _, _, _ => .error "history overview returned a null sequence or aggregate"

/-- The earlier of two times; none has not been set. -/
def noteFirst : Option Timestamp → Option Timestamp → Option Timestamp
  | none, next => next
  | some current, none => some current
  | some current, some next => some (if next < current then next else current)

/-- The later of two times; none has not been set. -/
def noteLast : Option Timestamp → Option Timestamp → Option Timestamp
  | none, next => next
  | some current, none => some current
  | some current, some next => some (if current < next then next else current)

/-- A summary is pushed, and joins the total and the bounds. -/
def addSeries (out : Overview) (series : HistorySeriesSummary) : Overview :=
  { out with
    totalPointCount := out.totalPointCount + series.pointCount
    series := out.series ++ [series]
    firstTime := noteFirst out.firstTime series.firstTime
    lastTime := noteLast out.lastTime series.lastTime }

/-- The loop over the rows: the overview so far, and the error it stopped with. -/
def readRows : List OverviewRow → Overview → Overview × Option String
  | [], out => (out, none)
  | row :: rows, out =>
      match readSummary row with
      | .error message => (out, some message)
      | .ok series =>
          if sizeMax - series.pointCount < out.totalPointCount then
            (out, some "history overview point count overflowed")
          else readRows rows (addSeries out series)

/-- `requested_order.at`, for the ids of the table; `unrequested` says when it throws. -/
def seriesOrder (orders : Table SequenceId Nat) (series : HistorySeriesSummary) : Nat :=
  (orders.find series.sequenceId).getD 0

/-- In the order of the request, or of the ids where nothing in particular is requested. -/
def orderSeries (ids : List SequenceId) (series : List HistorySeriesSummary) :
    List HistorySeriesSummary :=
  if ids.isEmpty then series.insertionSort fun left right => left.sequenceId ≤ right.sequenceId
  else
    series.insertionSort fun left right =>
      seriesOrder (requestedOrders ids) left ≤ seriesOrder (requestedOrders ids) right

/-- The sort compares a sequence that was not requested: one of several, for every one of
    several is compared. -/
def unrequested (ids : List SequenceId) (series : List HistorySeriesSummary) : Bool :=
  !ids.isEmpty && decide (2 ≤ series.length) &&
    series.any fun one => ((requestedOrders ids).find one.sequenceId).isNone

/-- The end of `queryHistoryOverview`.  `at` throws for an id that was not requested. -/
def finishOverview (ids : List SequenceId) :
    Overview × Option String → Except String (Overview × OperationResult)
  | (out, some message) => .ok (out, internalError message)
  | (out, none) =>
      if unrequested ids out.series then .error "_Map_base::at"
      else
        let series := orderSeries ids out.series
        .ok
          ({ out with
              series := series
              columnNames := series.map (·.sequenceId)
              sequenceCount := series.length },
            okResult out.totalPointCount "history overview completed")

/-- `queryHistoryOverview` on an open connection; the answer of the database is given. -/
def queryHistoryOverview (projectId : ProjectId) (query : HistoryOverviewQuery)
    (answer : Except OperationResult (List OverviewRow)) :
    Except String (Overview × OperationResult) :=
  let out : Overview := { projectId := projectId }
  if query.startTime.any fun start => query.endTime.any fun finish => decide (finish < start) then
    .ok (out, invalidArgument "overview start_time must not be after end_time")
  else if query.sequenceIds.any fun sequenceId => sequenceId.isEmpty then
    .ok (out, invalidArgument "sequence_id must not be empty")
  else if projectId.isEmpty then .ok (out, invalidArgument "project_id must not be empty")
  else if query.startTime.any fun start => decide (query.endTime = some start) then
    .ok (out, okResult 0 "history overview returned no rows")
  else
    match answer with
    | .error result => .ok (out, result)
    | .ok rows => finishOverview query.sequenceIds (readRows rows out)

/-! ## The database -/

/-- `ts >= start AND ts < end`, each where it is given. -/
def inRange (query : HistoryOverviewQuery) (time : Timestamp) : Bool :=
  query.startTime.all (fun start => decide (start ≤ time)) &&
    query.endTime.all fun finish => decide (time < finish)

/-- `sequence_id IN (…)`, where it is given. -/
def wanted (query : HistoryOverviewQuery) (sequenceId : SequenceId) : Bool :=
  query.sequenceIds.isEmpty || decide (sequenceId ∈ query.sequenceIds)

/-- The selected times of one child table. -/
def childTimes (stable : String) (query : HistoryOverviewQuery) (child : ChildTable) :
    List (SequenceId × Timestamp) :=
  if child.stable = stable ∧ wanted query child.sequenceIdTag = true then
    (child.rows.keys.filter (inRange query)).map fun time => (child.sequenceIdTag, time)
  else []

/-- The selected times of all child tables. -/
def selectTimes (stable : String) (query : HistoryOverviewQuery) (database : Database) :
    List (SequenceId × Timestamp) :=
  database.keys.flatMap fun name => (database.find name).elim [] (childTimes stable query)

/-- `COUNT(*),MIN(ts),MAX(ts)` of a group. -/
def groupRow (selected : List (SequenceId × Timestamp)) (sequenceId : SequenceId) : OverviewRow where
  sequenceId := some sequenceId
  pointCount := some (valuesOf selected sequenceId).length
  firstTime := (valuesOf selected sequenceId).min?
  lastTime := (valuesOf selected sequenceId).max?

/-- `GROUP BY sequence_id`, the groups in an order of the database's own. -/
def answerRows (stable : String) (query : HistoryOverviewQuery)
    (arrange : List OverviewRow → List OverviewRow) (database : Database) : List OverviewRow :=
  arrange ((keysOf (selectTimes stable query database)).map
    (groupRow (selectTimes stable query database)))

/-- The list of ids is read as that of a raw query. -/
def overviewAnswer (baseName : String) (projectId : ProjectId) (query : HistoryOverviewQuery)
    (arrange : List OverviewRow → List OverviewRow) (database : Database) :
    Except OperationResult (List OverviewRow) :=
  let stable := projectStableName baseName projectId
  if query.sequenceIds.isEmpty then .ok (answerRows stable query arrange database)
  else
    match readSequenceList (cString (sequenceList query.sequenceIds)) with
    | none => .error (internalError "query history overview: syntax error")
    | some ids => .ok (answerRows stable { query with sequenceIds := ids } arrange database)

/-! ## What an overview tells -/

/-- The summary of a sequence among some points. -/
def summaryOf (pairs : List (SequenceId × Timestamp)) (s : SequenceId) : HistorySeriesSummary where
  sequenceId := s
  pointCount := (valuesOf pairs s).length
  firstTime := (valuesOf pairs s).min?
  lastTime := (valuesOf pairs s).max?

/-- The overview is that of some points, given by their sequences and times. -/
structure Summarises (ids : List SequenceId) (pairs : List (SequenceId × Timestamp))
    (overview : Overview) : Prop where
  series : ∀ summary : HistorySeriesSummary, summary ∈ overview.series ↔
    valuesOf pairs summary.sequenceId ≠ [] ∧ summary = summaryOf pairs summary.sequenceId
  columns : overview.columnNames = overview.series.map (·.sequenceId)
  /-- A column for each sequence, in the order of the request. -/
  ordered : overview.columnNames.Pairwise fun left right =>
    if ids = [] then left < right else ids.idxOf left < ids.idxOf right
  count : overview.sequenceCount = overview.series.length
  total : overview.totalPointCount = pairs.length
  first : overview.firstTime = (pairs.map Prod.snd).min?
  last : overview.lastTime = (pairs.map Prod.snd).max?

theorem summaryOf_perm {pairs pairs' : List (SequenceId × Timestamp)} (h : pairs.Perm pairs')
    (s : SequenceId) : summaryOf pairs s = summaryOf pairs' s := by
  have hvalues := valuesOf_perm h s
  rw [summaryOf, summaryOf, hvalues.length_eq, min?_perm hvalues, max?_perm hvalues]

/-- The order of the points does not matter. -/
theorem Summarises.congr {ids : List SequenceId} {pairs pairs' : List (SequenceId × Timestamp)}
    {overview : Overview} (h : Summarises ids pairs overview) (hperm : pairs.Perm pairs') :
    Summarises ids pairs' overview := by
  refine ⟨fun summary => ?_, h.columns, h.ordered, h.count, ?_, ?_, ?_⟩
  · rw [h.series, summaryOf_perm hperm, ← mem_keysOf, ← mem_keysOf]
    refine and_congr_left fun _ => ?_
    rw [mem_keysOf, mem_keysOf, ← List.length_pos_iff, ← List.length_pos_iff,
      (valuesOf_perm hperm _).length_eq]
  · rw [h.total, hperm.length_eq]
  · rw [h.first, min?_perm (hperm.map _)]
  · rw [h.last, max?_perm (hperm.map _)]

/-! ## The loop over the rows -/

section Loop

variable {pairs : List (SequenceId × Timestamp)}

/-- The row of a group is read as its summary. -/
theorem readSummary_groupRow {s : SequenceId} (hs : s ≠ "") (hsome : valuesOf pairs s ≠ [])
    (hfits : (valuesOf pairs s).length ≤ sizeMax) :
    readSummary (groupRow pairs s) = .ok (summaryOf pairs s) := by
  obtain ⟨first, hfirst⟩ := Option.isSome_iff_exists.mp (List.isSome_min?_of_ne_nil hsome)
  obtain ⟨last, hlast⟩ := Option.isSome_iff_exists.mp (List.isSome_max?_of_ne_nil hsome)
  have hnamed : ¬ s.isEmpty = true := fun h => hs (String.isEmpty_iff.mp h)
  have hcount : ¬ ((valuesOf pairs s).length < (0 : Int) ∨
      sizeMax < ((valuesOf pairs s).length : Int).toNat) := by
    rw [Int.toNat_natCast]
    omega
  rw [readSummary, groupRow, hfirst, hlast]
  simp only [if_neg hnamed]
  rw [if_neg hcount, summaryOf, hfirst, hlast, Int.toNat_natCast]

/-- The groups that are read: each is added. -/
theorem readRows_groups {keys : List SequenceId}
    (hkeys : ∀ s ∈ keys, s ≠ "" ∧ valuesOf pairs s ≠ []) (out : Overview)
    (hfits : out.totalPointCount + (keys.map fun s => (valuesOf pairs s).length).sum ≤ sizeMax) :
    readRows (keys.map (groupRow pairs)) out =
      ((keys.map (summaryOf pairs)).foldl addSeries out, none) := by
  induction keys generalizing out with
  | nil => rfl
  | cons s keys ih =>
      obtain ⟨hs, hsome⟩ := hkeys s List.mem_cons_self
      rw [List.map_cons, List.sum_cons] at hfits
      rw [List.map_cons, readRows, readSummary_groupRow hs hsome (by omega)]
      have hroom : ¬ sizeMax - (summaryOf pairs s).pointCount < out.totalPointCount := by
        show ¬ sizeMax - (valuesOf pairs s).length < out.totalPointCount
        omega
      simp only [if_neg hroom]
      refine ih (fun t ht => hkeys t (List.mem_cons_of_mem _ ht)) _ ?_
      show out.totalPointCount + (valuesOf pairs s).length + _ ≤ sizeMax
      omega

/-- The loop over the first times keeps the least. -/
theorem foldl_noteFirst (times : List (Option Timestamp)) (current : Option Timestamp) :
    times.foldl noteFirst current = (current.toList ++ times.filterMap fun time => time).min? := by
  induction times generalizing current with
  | nil => cases current <;> rfl
  | cons time times ih =>
      rw [List.foldl_cons, ih]
      cases current with
      | none => cases time <;> rfl
      | some current =>
          cases time with
          | none => rfl
          | some next =>
              have hmin : (if next < current then next else current) = min current next := by
                rcases lt_or_ge next current with hlt | hle
                · rw [if_pos hlt, min_eq_right hlt.le]
                · rw [if_neg (not_lt.mpr hle), min_eq_left hle]
              rw [noteFirst, hmin]
              rfl

/-- The loop over the last times keeps the greatest. -/
theorem foldl_noteLast (times : List (Option Timestamp)) (current : Option Timestamp) :
    times.foldl noteLast current = (current.toList ++ times.filterMap fun time => time).max? := by
  induction times generalizing current with
  | nil => cases current <;> rfl
  | cons time times ih =>
      rw [List.foldl_cons, ih]
      cases current with
      | none => cases time <;> rfl
      | some current =>
          cases time with
          | none => rfl
          | some next =>
              have hmax : (if current < next then next else current) = max current next := by
                rcases lt_or_ge current next with hlt | hle
                · rw [if_pos hlt, max_eq_right hlt.le]
                · rw [if_neg (not_lt.mpr hle), max_eq_left hle]
              rw [noteLast, hmax]
              rfl

/-- What the loop has summed up. -/
theorem foldl_addSeries (series : List HistorySeriesSummary) (out : Overview) :
    let sum := series.foldl addSeries out
    sum.series = out.series ++ series ∧
      sum.totalPointCount = out.totalPointCount + (series.map (·.pointCount)).sum ∧
      sum.firstTime = (series.map (·.firstTime)).foldl noteFirst out.firstTime ∧
      sum.lastTime = (series.map (·.lastTime)).foldl noteLast out.lastTime ∧
      sum.projectId = out.projectId := by
  induction series generalizing out with
  | nil => exact ⟨(List.append_nil _).symm, rfl, rfl, rfl, rfl⟩
  | cons one series ih =>
      obtain ⟨hseries, htotal, hfirst, hlast, hproject⟩ := ih (addSeries out one)
      refine ⟨hseries.trans (List.append_assoc ..), htotal.trans ?_, hfirst, hlast, hproject⟩
      rw [List.map_cons, List.sum_cons, ← Nat.add_assoc]
      rfl

/-- An arrangement of the groups is the groups of an arrangement of the keys. -/
theorem arranged_groups {keys : List SequenceId} {rows : List OverviewRow}
    (h : rows.Perm (keys.map (groupRow pairs))) :
    ∃ keys' : List SequenceId, keys'.Perm keys ∧ rows = keys'.map (groupRow pairs) := by
  refine ⟨rows.map fun row => row.sequenceId.getD "", ?_, ?_⟩
  · refine (h.map _).trans (List.Perm.of_eq ?_)
    rw [List.map_map]
    exact List.map_id keys
  · rw [List.map_map]
    refine (List.map_id rows).symm.trans (List.map_congr_left fun row hrow => ?_)
    obtain ⟨s, -, rfl⟩ := List.mem_map.mp (h.mem_iff.mp hrow)
    rfl

theorem orderSeries_perm (ids : List SequenceId) (series : List HistorySeriesSummary) :
    (orderSeries ids series).Perm series := by
  rw [orderSeries]
  split <;> exact List.perm_insertionSort _ _

/-- The columns are in order, each once. -/
theorem orderSeries_ordered {ids : List SequenceId} {series : List HistorySeriesSummary}
    (hnodup : (series.map (·.sequenceId)).Nodup)
    (hids : ids ≠ [] → ∀ summary ∈ series, summary.sequenceId ∈ ids) :
    ((orderSeries ids series).map (·.sequenceId)).Pairwise fun left right =>
      if ids = [] then left < right else ids.idxOf left < ids.idxOf right := by
  have hapart : (orderSeries ids series).Pairwise fun left right =>
      left.sequenceId ≠ right.sequenceId :=
    List.pairwise_map.mp (((orderSeries_perm ids series).map _).nodup_iff.mpr hnodup)
  rw [List.pairwise_map]
  by_cases hall : ids = []
  · simp only [if_pos hall]
    have hsorted : (orderSeries ids series).Pairwise fun left right =>
        left.sequenceId ≤ right.sequenceId := by
      rw [orderSeries, if_pos (List.isEmpty_iff.mpr hall)]
      exact List.pairwise_insertionSort _ _
    exact (hsorted.and hapart).imp fun h => lt_of_le_of_ne h.1 h.2
  · simp only [if_neg hall]
    have horder : ∀ summary ∈ orderSeries ids series,
        seriesOrder (requestedOrders ids) summary = ids.idxOf summary.sequenceId := by
      intro summary hsummary
      rw [seriesOrder, requestedOrders_find
        (hids hall summary ((orderSeries_perm ids series).mem_iff.mp hsummary))]
      rfl
    have hsorted : (orderSeries ids series).Pairwise fun left right =>
        seriesOrder (requestedOrders ids) left ≤ seriesOrder (requestedOrders ids) right := by
      rw [orderSeries, if_neg fun h => hall (List.isEmpty_iff.mp h)]
      exact List.pairwise_insertionSort _ _
    refine (hsorted.and hapart).imp_of_mem fun {left right} hleft hright h => ?_
    rw [horder left hleft, horder right hright] at h
    refine lt_of_le_of_ne h.1 fun heq => h.2 ?_
    exact (List.idxOf_inj (hids hall left ((orderSeries_perm ids series).mem_iff.mp hleft))).mp heq

/-- Sequences that were requested can be compared. -/
theorem unrequested_eq_false {ids : List SequenceId} {series : List HistorySeriesSummary}
    (hids : ids ≠ [] → ∀ summary ∈ series, summary.sequenceId ∈ ids) :
    unrequested ids series = false := by
  rw [unrequested, Bool.and_eq_false_iff, Bool.and_eq_false_iff]
  by_cases hall : ids = []
  · refine Or.inl (Or.inl ?_)
    rw [hall]
    rfl
  · refine Or.inr (List.any_eq_false.mpr fun summary hsummary hnone => ?_)
    rw [requestedOrders_find (hids hall summary hsummary)] at hnone
    cases hnone

/-- **The rows of some points are summed up**, in whatever order they come. -/
theorem summarises_rows {ids : List SequenceId} {rows : List OverviewRow} (p : ProjectId)
    (hnamed : ∀ pair ∈ pairs, pair.1 ≠ "") (hids : ids ≠ [] → ∀ pair ∈ pairs, pair.1 ∈ ids)
    (hfits : pairs.length ≤ sizeMax)
    (hrows : rows.Perm ((keysOf pairs).map (groupRow pairs))) :
    ∃ outcome, finishOverview ids (readRows rows { projectId := p }) = .ok outcome ∧
      outcome.2 = okResult pairs.length "history overview completed" ∧ outcome.1.projectId = p ∧
      Summarises ids pairs outcome.1 := by
  obtain ⟨keys, hkeys, rfl⟩ := arranged_groups hrows
  have hlengths : (keys.map fun s => (valuesOf pairs s).length).sum = pairs.length :=
    (hkeys.map _).sum_eq.trans (sum_length_valuesOf pairs)
  have hmem : ∀ s, s ∈ keys ↔ valuesOf pairs s ≠ [] := fun s => hkeys.mem_iff.trans mem_keysOf
  have hpair : ∀ s ∈ keys, ∃ pair ∈ pairs, pair.1 = s := by
    intro s hs
    obtain ⟨time, htime⟩ := List.exists_mem_of_ne_nil _ ((hmem s).mp hs)
    exact ⟨(s, time), mem_valuesOf.mp htime, rfl⟩
  have hgroups : ∀ s ∈ keys, s ≠ "" ∧ valuesOf pairs s ≠ [] := by
    intro s hs
    obtain ⟨pair, hmempair, rfl⟩ := hpair s hs
    exact ⟨hnamed pair hmempair, (hmem _).mp hs⟩
  have hread := readRows_groups hgroups { projectId := p } (by
    rw [hlengths, Nat.zero_add]
    exact hfits)
  obtain ⟨hseries, htotal, hfirst, hlast, hproject⟩ :=
    foldl_addSeries (keys.map (summaryOf pairs)) { projectId := p }
  rw [hread]
  rw [List.map_map] at htotal hfirst hlast
  have hcount : ((keys.map (summaryOf pairs)).foldl addSeries { projectId := p }).totalPointCount =
      pairs.length := htotal.trans ((Nat.zero_add _).trans hlengths)
  have hcolumns : (keys.map (summaryOf pairs)).map (·.sequenceId) = keys := by
    rw [List.map_map]
    exact List.map_id keys
  have hrequested : ids ≠ [] → ∀ summary ∈ keys.map (summaryOf pairs), summary.sequenceId ∈ ids := by
    intro hsome summary hsummary
    obtain ⟨s, hs, rfl⟩ := List.mem_map.mp hsummary
    obtain ⟨pair, hmempair, rfl⟩ := hpair s hs
    exact hids hsome pair hmempair
  have hordered := orderSeries_ordered
    (by rw [hcolumns]; exact hkeys.nodup_iff.mpr (nodup_keysOf pairs)) hrequested
  have hcompared : ¬ unrequested ids
      ((keys.map (summaryOf pairs)).foldl addSeries { projectId := p }).series = true := by
    rw [hseries, List.nil_append, unrequested_eq_false hrequested]
    exact Bool.false_ne_true
  refine ⟨_, if_neg hcompared, ?_, hproject, fun summary => ?_, rfl, ?_, rfl, hcount, ?_, ?_⟩
  · show okResult _ _ = _
    rw [hcount]
  · show summary ∈ orderSeries ids _ ↔ _
    rw [(orderSeries_perm ids _).mem_iff, hseries, List.nil_append, List.mem_map]
    constructor
    · rintro ⟨s, hs, rfl⟩
      exact ⟨(hmem s).mp hs, rfl⟩
    · rintro ⟨hsome, heq⟩
      exact ⟨summary.sequenceId, (hmem _).mpr hsome, heq.symm⟩
  · show ((orderSeries ids _).map _).Pairwise _
    rw [hseries]
    exact hordered
  · show ((keys.map (summaryOf pairs)).foldl addSeries _).firstTime = _
    rw [hfirst, foldl_noteFirst, List.filterMap_map, ← min_of_groups]
    exact min?_perm (hkeys.filterMap _)
  · show ((keys.map (summaryOf pairs)).foldl addSeries _).lastTime = _
    rw [hlast, foldl_noteLast, List.filterMap_map, ← max_of_groups]
    exact max?_perm (hkeys.filterMap _)

end Loop

/-! ## The points of a history -/

/-- The sequences and times the accepted inserts of a project have written, as far as the
    query selects them. -/
def writtenTimes (history : List InsertCall) (p : ProjectId) (query : HistoryOverviewQuery) :
    List (SequenceId × Timestamp) :=
  ((((history.filter fun call => decide (call.projectId = p)).flatMap (·.batch.points)).map
    fun point => (point.sequenceId, point.time)).filter fun pair =>
      wanted query pair.1 && inRange query pair.2).dedup

section History

variable {baseName : String} {history : List InsertCall} {database : Database} {p : ProjectId}
  {query : HistoryOverviewQuery} {pairs : List (ProjectId × SequenceId)}

/-- The points written to a sequence. -/
theorem mem_writes {s : SequenceId} {point : RawTimeseriesPoint} :
    point ∈ writes history p s ↔
      point.sequenceId = s ∧ ∃ call ∈ history, call.projectId = p ∧ point ∈ call.batch.points := by
  rw [writes, List.mem_flatMap]
  constructor
  · rintro ⟨call, hcall, hpoint⟩
    rw [writesOf] at hpoint
    split at hpoint
    · rename_i hproject
      obtain ⟨hmem, hs⟩ := mem_incomingFor.mp hpoint
      exact ⟨hs, call, hcall, hproject, hmem⟩
    · cases hpoint
  · rintro ⟨hs, call, hcall, hproject, hpoint⟩
    refine ⟨call, hcall, ?_⟩
    rw [writesOf, if_pos hproject]
    exact mem_incomingFor.mpr ⟨hpoint, hs⟩

/-- The times written, in the range asked for. -/
theorem mem_writtenTimes {s : SequenceId} {time : Timestamp} :
    (s, time) ∈ writtenTimes history p query ↔
      (wanted query s = true ∧ inRange query time = true) ∧
        ∃ point ∈ writes history p s, point.time = time := by
  rw [writtenTimes, List.mem_dedup, List.mem_filter, List.mem_map, and_comm, Bool.and_eq_true]
  refine and_congr_right fun _ => ⟨?_, ?_⟩
  · rintro ⟨point, hpoint, heq⟩
    obtain ⟨rfl, rfl⟩ := Prod.mk.inj heq
    obtain ⟨call, hcall, hmem⟩ := List.mem_flatMap.mp hpoint
    obtain ⟨hhistory, hproject⟩ := List.mem_filter.mp hcall
    exact ⟨point, mem_writes.mpr ⟨rfl, call, hhistory, of_decide_eq_true hproject, hmem⟩, rfl⟩
  · rintro ⟨point, hpoint, rfl⟩
    obtain ⟨rfl, call, hcall, hproject, hmem⟩ := mem_writes.mp hpoint
    exact ⟨point, List.mem_flatMap.mpr
      ⟨call, List.mem_filter.mpr ⟨hcall, decide_eq_true hproject⟩, hmem⟩, rfl⟩

/-- There are no more of them than points. -/
theorem length_writtenTimes :
    (writtenTimes history p query).length ≤ (history.map (·.batch.points.length)).sum := by
  refine ((List.dedup_sublist _).length_le.trans (List.length_filter_le _ _)).trans ?_
  rw [List.length_map, List.length_flatMap]
  exact (List.filter_sublist.map _).sum_le_sum fun _ _ => Nat.zero_le _

/-- The child table of a sequence. -/
theorem child_of_table {s : SequenceId} {content : List RawTimeseriesPoint} {child : ChildTable}
    (h : childTable baseName p s content = some child) :
    child.stable = projectStableName baseName p ∧ child.sequenceIdTag = s ∧
      ∀ time, time ∈ child.rows.keys ↔ ∃ point ∈ content, point.time = time := by
  cases content with
  | nil => cases h
  | cons first rest =>
      obtain rfl := Option.some.inj h
      refine ⟨rfl, rfl, fun time => ?_⟩
      show time ∈ (storeRows (first :: rest) KeyedTable.empty).keys ↔ _
      rw [Table.mem_keys, find_storeRows, find_empty, Option.or_none, Option.isSome_map]
      constructor
      · intro hsome
        obtain ⟨point, hpoint⟩ := Option.isSome_iff_exists.mp hsome
        exact ⟨point, lastAt_some _ hpoint⟩
      · rintro ⟨point, hpoint, htime⟩
        refine Option.isSome_iff_ne_none.mpr fun hnone => ?_
        exact (lastAt_eq_none RawTimeseriesPoint.time).mp hnone point hpoint htime

/-- The times a child table gives to the query. -/
theorem mem_childTimes {stable : String} {child : ChildTable} {s : SequenceId} {time : Timestamp} :
    (s, time) ∈ childTimes stable query child ↔
      child.stable = stable ∧ s = child.sequenceIdTag ∧
        (wanted query s = true ∧ inRange query time = true) ∧ time ∈ child.rows.keys := by
  rw [childTimes]
  split
  · rename_i hselected
    rw [List.mem_map]
    constructor
    · rintro ⟨other, hother, heq⟩
      obtain ⟨rfl, rfl⟩ := Prod.mk.inj heq
      obtain ⟨hkey, hrange⟩ := List.mem_filter.mp hother
      exact ⟨hselected.1, rfl, ⟨hselected.2, hrange⟩, hkey⟩
    · rintro ⟨-, rfl, ⟨-, hrange⟩, hkey⟩
      exact ⟨time, List.mem_filter.mpr ⟨hkey, hrange⟩, rfl⟩
  · rename_i hskipped
    refine iff_of_false List.not_mem_nil ?_
    rintro ⟨hstable, rfl, ⟨hwanted, -⟩, -⟩
    exact hskipped ⟨hstable, hwanted⟩

/-- The ids in the tags of the tables are written ones. -/
theorem Mirror.tag_written (hmirror : Mirror baseName pairs history database)
    (hpairs : ∀ pair ∈ writtenPairs history, pair ∈ pairs) {name : String} {child : ChildTable}
    (hfind : database.find name = some child) :
    child.sequenceIdTag ∈ (writtenPairs history).map Prod.snd := by
  obtain ⟨⟨q, s⟩, hwritten, rfl⟩ :=
    hmirror.names name ((database.mem_keys name).mpr (by rw [hfind]; rfl))
  have htable := hmirror.tables (q, s) (hpairs _ hwritten)
  rw [hfind] at htable
  obtain ⟨-, htag, -⟩ := child_of_table htable.symm
  rw [htag]
  exact List.mem_map_of_mem hwritten

variable (hmirror : Mirror baseName pairs history database) (hapart : NamesApart pairs)
  (hpairs : ∀ pair ∈ writtenPairs history, pair ∈ pairs)
  (hproject : ∀ pair ∈ writtenPairs history, (p, pair.2) ∈ pairs)

include hmirror hapart hpairs hproject in
/-- A table of the project holds the times written for its sequence. -/
theorem table_of_project {name : String} {child : ChildTable}
    (hfind : database.find name = some child)
    (hstable : child.stable = projectStableName baseName p) :
    name = tableName p child.sequenceIdTag ∧ ∀ time, time ∈ child.rows.keys ↔
      ∃ point ∈ writes history p child.sequenceIdTag, point.time = time := by
  have hids : ∀ s ∈ (writtenPairs history).map Prod.snd, (p, s) ∈ pairs := by
    intro s hs
    obtain ⟨pair, hpair, rfl⟩ := List.mem_map.mp hs
    exact hproject pair hpair
  obtain ⟨hname, htable⟩ := hmirror.requested hapart hpairs hids hfind hstable
    (Mirror.tag_written hmirror hpairs hfind)
  exact ⟨hname, (child_of_table htable).2.2⟩

include hmirror hapart hpairs hproject in
/-- The query counts the times that have been written. -/
theorem mem_selectTimes {s : SequenceId} {time : Timestamp} :
    (s, time) ∈ selectTimes (projectStableName baseName p) query database ↔
      (s, time) ∈ writtenTimes history p query := by
  rw [selectTimes, List.mem_flatMap, mem_writtenTimes]
  constructor
  · rintro ⟨name, -, hmem⟩
    cases hfind : database.find name with
    | none =>
        rw [hfind] at hmem
        cases hmem
    | some child =>
        rw [hfind] at hmem
        obtain ⟨hstable, rfl, hselected, hkey⟩ := mem_childTimes.mp hmem
        obtain ⟨-, hrows⟩ := table_of_project hmirror hapart hpairs hproject hfind hstable
        exact ⟨hselected, (hrows time).mp hkey⟩
  · rintro ⟨hselected, point, hpoint, htime⟩
    obtain ⟨hs, call, hcall, hcallProject, hmem⟩ := mem_writes.mp hpoint
    have hwritten : (p, s) ∈ writtenPairs history := by
      refine List.mem_flatMap.mpr ⟨call, hcall, List.mem_map.mpr ⟨point, hmem, ?_⟩⟩
      rw [hs, hcallProject]
    have htable := hmirror.tables (p, s) (hpairs _ hwritten)
    obtain ⟨child, hchild⟩ : ∃ child, childTable baseName p s (writes history p s) = some child := by
      cases hwrites : writes history p s with
      | nil =>
          rw [hwrites] at hpoint
          cases hpoint
      | cons first rest => exact ⟨_, rfl⟩
    obtain ⟨hstable, htag, hrows⟩ := child_of_table hchild
    have hfind : database.find (tableName p s) = some child := htable.trans hchild
    refine ⟨tableName p s, (database.mem_keys _).mpr (by rw [hfind]; rfl), ?_⟩
    rw [hfind]
    exact mem_childTimes.mpr ⟨hstable, htag.symm, hselected, (hrows time).mpr ⟨point, hpoint, htime⟩⟩

include hmirror hapart hpairs hproject in
/-- The query counts no time of a sequence twice. -/
theorem nodup_selectTimes :
    (selectTimes (projectStableName baseName p) query database).Nodup := by
  rw [selectTimes, List.nodup_flatMap]
  refine ⟨fun name _ => ?_, database.nodup.imp fun {name name'} hne => ?_⟩
  · cases database.find name with
    | none => exact List.nodup_nil
    | some child =>
        show (childTimes _ query child).Nodup
        rw [childTimes]
        split
        · exact (child.rows.nodup.filter _).map fun time time' heq => (Prod.mk.inj heq).2
        · exact List.nodup_nil
  · -- two tables of the project are of two sequences
    have hname : ∀ {name : String} {s : SequenceId} {time : Timestamp},
        (s, time) ∈ (database.find name).elim [] (childTimes (projectStableName baseName p) query) →
          name = tableName p s := by
      intro name s time hmem
      cases hfind : database.find name with
      | none =>
          rw [hfind] at hmem
          cases hmem
      | some child =>
          rw [hfind] at hmem
          obtain ⟨hstable, rfl, -, -⟩ := mem_childTimes.mp hmem
          exact (table_of_project hmirror hapart hpairs hproject hfind hstable).1
    intro pair hpair hpair'
    exact hne ((hname hpair).trans (hname hpair').symm)

end History

/-! ## The overview of a history -/

/-- A query that passes the checks, of ids that can be written in a statement. -/
structure ValidOverview (p : ProjectId) (query : HistoryOverviewQuery) : Prop where
  project : p ≠ ""
  named : ∀ s ∈ query.sequenceIds, s ≠ ""
  noNul : ∀ s ∈ query.sequenceIds, '\x00' ∉ s.toList
  interval : ∀ start finish, query.startTime = some start → query.endTime = some finish →
    start ≤ finish

/-- The tables of the written sequences, and of these sequences in the project, are apart. -/
def ProjectApart (history : List InsertCall) (p : ProjectId) : Prop :=
  NamesApart (writtenPairs history ++ (writtenPairs history).map fun pair => (p, pair.2))

section Exact

variable {baseName : String} {history : List InsertCall} {database : Database} {p : ProjectId}
  {query : HistoryOverviewQuery}

/-- What it counts is what has been written. -/
theorem selectTimes_perm (hrun : ColdRun baseName history database)
    (hapart : ProjectApart history p) :
    (selectTimes (projectStableName baseName p) query database).Perm
      (writtenTimes history p query) := by
  have hpairs : ∀ pair ∈ writtenPairs history,
      pair ∈ writtenPairs history ++ (writtenPairs history).map fun pair => (p, pair.2) :=
    fun pair hpair => List.mem_append_left _ hpair
  have hproject : ∀ pair ∈ writtenPairs history,
      (p, pair.2) ∈ writtenPairs history ++ (writtenPairs history).map fun pair => (p, pair.2) :=
    fun pair hpair => List.mem_append_right _ (List.mem_map_of_mem hpair)
  have hmirror := mirror_of_run hrun hapart hpairs
  refine (List.perm_ext_iff_of_nodup (nodup_selectTimes hmirror hapart hpairs hproject)
    (List.nodup_dedup _)).mpr fun pair => ?_
  exact mem_selectTimes hmirror hapart hpairs hproject

/-- What an accepted insert writes has a name. -/
theorem named_of_run (hrun : ColdRun baseName history database) :
    ∀ pair ∈ writtenTimes history p query, pair.1 ≠ "" := by
  have hnamed : ∀ call ∈ history, ∀ point ∈ call.batch.points, point.sequenceId ≠ "" := by
    induction hrun with
    | start => exact fun _ hcall => absurd hcall List.not_mem_nil
    | insert call hrun haccepted ih =>
        intro other hother point hpoint hempty
        rcases List.mem_append.mp hother with hold | hnew
        · exact ih other hold point hpoint hempty
        · obtain rfl := List.mem_singleton.mp hnew
          have hchecks := (runInsert_accepted haccepted).1
          rw [insertChecks] at hchecks
          split at hchecks
          · cases hchecks
          · rw [if_pos (List.any_eq_true.mpr ⟨point, hpoint, by rw [hempty]; rfl⟩)] at hchecks
            cases hchecks
  rintro ⟨s, time⟩ hpair
  obtain ⟨-, point, hpoint, -⟩ := mem_writtenTimes.mp hpair
  obtain ⟨rfl, call, hcall, -, hmem⟩ := mem_writes.mp hpoint
  exact hnamed call hcall point hmem

theorem inRange_empty {start : Timestamp} (hstart : query.startTime = some start)
    (hfinish : query.endTime = some start) (time : Timestamp) : inRange query time = false := by
  rw [inRange, hstart, hfinish]
  simp

/-- A valid query gets as far as the empty range. -/
theorem valid_checks (hvalid : ValidOverview p query) :
    (query.startTime.any fun start => query.endTime.any fun finish => decide (finish < start)) =
        false ∧
      (query.sequenceIds.any fun sequenceId => sequenceId.isEmpty) = false ∧
      p.isEmpty = false := by
  refine ⟨?_, List.any_eq_false.mpr fun s hs hempty => ?_, ?_⟩
  · cases hstart : query.startTime with
    | none => rfl
    | some start =>
        cases hfinish : query.endTime with
        | none => rfl
        | some finish => exact decide_eq_false (not_lt.mpr (hvalid.interval start finish hstart hfinish))
  · exact hvalid.named s hs (String.isEmpty_iff.mp hempty)
  · exact Bool.eq_false_iff.mpr fun h => hvalid.project (String.isEmpty_iff.mp h)

/-- An empty range is answered without the database. -/
theorem queryHistoryOverview_empty (hvalid : ValidOverview p query) {start : Timestamp}
    (hstart : query.startTime = some start) (hfinish : query.endTime = some start)
    (answer : Except OperationResult (List OverviewRow)) :
    queryHistoryOverview p query answer =
      .ok ({ projectId := p }, okResult 0 "history overview returned no rows") := by
  obtain ⟨hinterval, hnamed, hproject⟩ := valid_checks hvalid
  have hempty : (query.startTime.any fun start => decide (query.endTime = some start)) = true := by
    rw [hstart, hfinish]
    exact decide_eq_true rfl
  simp only [queryHistoryOverview, hinterval, hnamed, hproject, hempty, Bool.false_eq_true, if_false,
    if_true]

/-- Otherwise the rows are read. -/
theorem queryHistoryOverview_rows (hvalid : ValidOverview p query)
    (hopen : ∀ start, query.startTime = some start → query.endTime ≠ some start)
    (rows : List OverviewRow) :
    queryHistoryOverview p query (.ok rows) =
      finishOverview query.sequenceIds (readRows rows { projectId := p }) := by
  obtain ⟨hinterval, hnamed, hproject⟩ := valid_checks hvalid
  have hsome : (query.startTime.any fun start => decide (query.endTime = some start)) = false := by
    cases hstart : query.startTime with
    | none => rfl
    | some start => exact decide_eq_false (hopen start hstart)
  simp only [queryHistoryOverview, hinterval, hnamed, hproject, hsome, Bool.false_eq_true, if_false]

/-- The database answers a valid query. -/
theorem overviewAnswer_valid (hvalid : ValidOverview p query)
    (arrange : List OverviewRow → List OverviewRow) :
    overviewAnswer baseName p query arrange database =
      .ok (answerRows (projectStableName baseName p) query arrange database) := by
  rw [overviewAnswer]
  by_cases hall : query.sequenceIds.isEmpty = true
  · rw [if_pos hall]
  · have hne : query.sequenceIds ≠ [] := fun h => hall (List.isEmpty_iff.mpr h)
    have hnul : ¬ ∃ s ∈ query.sequenceIds, '\x00' ∈ s.toList :=
      fun ⟨s, hs, hmem⟩ => hvalid.noNul s hs hmem
    rw [if_neg hall, readSequenceList_cString hne, if_neg hnul]

/-- A range that is not empty is sent to the database. -/
theorem overview_of_rows (hrun : ColdRun baseName history database)
    (hapart : ProjectApart history p) (hvalid : ValidOverview p query)
    (hfits : (history.map (·.batch.points.length)).sum ≤ sizeMax)
    (arrange : List OverviewRow → List OverviewRow) (harr : ∀ rows, (arrange rows).Perm rows)
    (hrange : ∀ start, query.startTime = some start → query.endTime ≠ some start) :
    ∃ outcome, queryHistoryOverview p query
        (overviewAnswer baseName p query arrange database) = .ok outcome ∧
      outcome.2.code = .ok ∧
      outcome.2.successCount = (writtenTimes history p query).length ∧
      outcome.1.projectId = p ∧
      Summarises query.sequenceIds (writtenTimes history p query) outcome.1 := by
  have hperm := @selectTimes_perm baseName history database p query hrun hapart
  have hids : query.sequenceIds ≠ [] →
      ∀ pair ∈ selectTimes (projectStableName baseName p) query database,
        pair.1 ∈ query.sequenceIds := by
    rintro hsome ⟨s, time⟩ hpair
    have hwanted := (mem_writtenTimes.mp (hperm.mem_iff.mp hpair)).1.1
    rw [wanted, Bool.or_eq_true, List.isEmpty_iff, decide_eq_true_iff] at hwanted
    exact hwanted.resolve_left hsome
  obtain ⟨outcome, hfinished, hresult, howner, hsummarises⟩ := summarises_rows p
    (fun pair hpair => named_of_run hrun pair (hperm.mem_iff.mp hpair)) hids
    (hperm.length_eq.trans_le (length_writtenTimes.trans hfits)) (harr _)
  have hanswer := @overviewAnswer_valid baseName database p query hvalid arrange
  refine ⟨outcome, ?_, congrArg OperationResult.code hresult, ?_, howner, hsummarises.congr hperm⟩
  · exact (congrArg (queryHistoryOverview p query) hanswer).trans
      ((queryHistoryOverview_rows hvalid hrange _).trans hfinished)
  rw [← hperm.length_eq]
  exact congrArg OperationResult.successCount hresult

/-- **The overview is exact.**  After every history of accepted inserts, and in whatever
    order the database answers: a valid query succeeds and tells the number of points, the
    first and the last time of exactly those requested sequences that the project has points
    of in the range, each once and in the order of the request, and of all of them. -/
theorem overview_exact (hrun : ColdRun baseName history database)
    (hapart : ProjectApart history p) (hvalid : ValidOverview p query)
    (hfits : (history.map (·.batch.points.length)).sum ≤ sizeMax)
    (arrange : List OverviewRow → List OverviewRow) (harr : ∀ rows, (arrange rows).Perm rows) :
    ∃ outcome, queryHistoryOverview p query
        (overviewAnswer baseName p query arrange database) = .ok outcome ∧
      outcome.2.code = .ok ∧
      outcome.2.successCount = (writtenTimes history p query).length ∧
      outcome.1.projectId = p ∧
      Summarises query.sequenceIds (writtenTimes history p query) outcome.1 := by
  by_cases hempty : ∃ start, query.startTime = some start ∧ query.endTime = some start
  · -- an empty range is not sent to the database
    obtain ⟨start, hstart, hfinish⟩ := hempty
    have hnone : writtenTimes history p query = [] := by
      refine List.eq_nil_iff_forall_not_mem.mpr ?_
      rintro ⟨s, time⟩ hpair
      have hrange := (mem_writtenTimes.mp hpair).1.2
      rw [inRange_empty hstart hfinish] at hrange
      cases hrange
    rw [hnone]
    refine ⟨_, queryHistoryOverview_empty hvalid hstart hfinish _, rfl, rfl, rfl,
      fun summary => ?_, rfl, List.Pairwise.nil, rfl, rfl, rfl, rfl⟩
    exact iff_of_false List.not_mem_nil fun h => h.1 rfl
  · exact overview_of_rows hrun hapart hvalid hfits arrange harr
      fun start hstart hfinish => hempty ⟨start, hstart, hfinish⟩

end Exact

/-- Two points of one sequence. -/
def twoInserts : List InsertCall := [insertOne (.int64 1) 5, insertOne (.int64 2) 9]

theorem twoInserts_apart : ProjectApart twoInserts "p" := namesApart_of_one (by decide)

/-- The overview of two inserts, read in reverse order. -/
theorem overview_exact_two_inserts :
    ∃ database, ColdRun "raw" twoInserts database ∧
      ∃ outcome, queryHistoryOverview "p" {}
          (overviewAnswer "raw" "p" {} List.reverse database) = .ok outcome ∧
        outcome.2.code = .ok ∧ outcome.2.successCount = (writtenTimes twoInserts "p" {}).length ∧
        outcome.1.projectId = "p" ∧ Summarises [] (writtenTimes twoInserts "p" {}) outcome.1 := by
  have hfirst := ColdRun.start.insert (insertOne (.int64 1) 5) (insertOne_accepted 1 5 _)
  have hrun : ColdRun "raw" twoInserts _ :=
    hfirst.insert (insertOne (.int64 2) 9) (insertOne_accepted 2 9 _)
  have hvalid : ValidOverview "p" {} :=
    ⟨by decide, fun _ hs => absurd hs List.not_mem_nil, fun _ hs => absurd hs List.not_mem_nil,
      fun _ _ hstart => by cases hstart⟩
  exact ⟨_, hrun, overview_exact hrun twoInserts_apart hvalid (by decide) List.reverse
    List.reverse_perm⟩

end HistoryOverview
