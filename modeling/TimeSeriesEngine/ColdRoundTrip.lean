import TimeSeriesEngine.ColdQuery
import TimeSeriesEngine.WindowUpdate

/-!
# What was written is read back

A history of accepted inserts leaves one child table for each sequence written, with
the kind of its first write for a tag and, for each time, the columns of the last.
A query reads all of it back when every row it selects still has the kind of the tag;
one row of another kind makes it fail, and no hint helps.

* `Mirror` — the database against the writes of each sequence;
* `mirror_of_run` — every history of accepted inserts keeps it;
* `round_trip_exact` — a query is exact iff it can be read and no selected row
  changed its kind.
-/

namespace TaosClient

open TseTypes KeyedTable OrderedSeries HotWindow WindowUpdate

/-! ## Names -/

theorem digitChar_inj : ∀ n < 16, ∀ m < 16, Nat.digitChar n = Nat.digitChar m → n = m := by decide

/-- A number has one hexadecimal form. -/
theorem toDigits_inj {n m : Nat} (h : Nat.toDigits 16 n = Nat.toDigits 16 m) : n = m := by
  induction n using Nat.strong_induction_on generalizing m with
  | _ n ih =>
      have hbase : 1 < 16 := by omega
      rw [Nat.toDigits_eq_if hbase, Nat.toDigits_eq_if (n := m) hbase] at h
      by_cases hn : n < 16 <;> by_cases hm : m < 16
      · rw [if_pos hn, if_pos hm] at h
        exact digitChar_inj n hn m hm (List.head_eq_of_cons_eq h)
      · rw [if_pos hn, if_neg hm] at h
        have hlength := congrArg List.length h
        have hpos : 0 < (Nat.toDigits 16 (m / 16)).length := Nat.length_toDigits_pos
        simp only [List.length_append, List.length_singleton] at hlength
        omega
      · rw [if_neg hn, if_pos hm] at h
        have hlength := congrArg List.length h
        have hpos : 0 < (Nat.toDigits 16 (n / 16)).length := Nat.length_toDigits_pos
        simp only [List.length_append, List.length_singleton] at hlength
        omega
      · rw [if_neg hn, if_neg hm] at h
        -- the last digit, and the digits before it
        obtain ⟨hinit, hlast⟩ := List.append_inj' h rfl
        have hquotient := ih (n / 16) (by omega) hinit
        have hdigit := digitChar_inj (n % 16) (by omega) (m % 16) (by omega)
          (List.head_eq_of_cons_eq hlast)
        omega

theorem hexadecimal_inj {n m : Nat} (h : hexadecimal n = hexadecimal m) : n = m :=
  toDigits_inj (String.ofList_injective h)

/-- Projects that share a stable give each sequence one table name. -/
theorem tableName_of_stable {baseName : String} {p q : ProjectId}
    (h : projectStableName baseName p = projectStableName baseName q) (s : SequenceId) :
    tableName p s = tableName q s := by
  have hhash : hashText hashStart p = hashText hashStart q :=
    hexadecimal_inj (append_right_inj_string h)
  rw [tableName, tableName, hhash]

/-! ## A history of inserts -/

/-- One call of `insertRawOnConnection`, with the count the database answers. -/
structure InsertCall where
  projectId : ProjectId
  connectionIndex : Nat
  affectedRows : Nat
  batch : TimeseriesBatch

/-- `insertRawOnConnection` for a recorded call. -/
def runInsert (baseName : String) (call : InsertCall) (database : Database) :
    Database × OperationResult :=
  insertRawOnConnection baseName call.projectId call.connectionIndex call.affectedRows call.batch
    database

/-- The databases a history of accepted inserts leads to. -/
inductive ColdRun (baseName : String) : List InsertCall → Database → Prop where
  | start : ColdRun baseName [] KeyedTable.empty
  | insert {history : List InsertCall} {database : Database} (call : InsertCall) :
      ColdRun baseName history database →
      (runInsert baseName call database).2.code = .ok →
      ColdRun baseName (history ++ [call]) (runInsert baseName call database).1

/-- What one call writes for a sequence. -/
def writesOf (p : ProjectId) (s : SequenceId) (call : InsertCall) : List RawTimeseriesPoint :=
  if call.projectId = p then incomingFor s call.batch.points else []

/-- Everything written for a sequence, in the order of the calls. -/
def writes (history : List InsertCall) (p : ProjectId) (s : SequenceId) :
    List RawTimeseriesPoint :=
  history.flatMap (writesOf p s)

/-- The last value written at a time. -/
def lastWritten (history : List InsertCall) (p : ProjectId) (s : SequenceId) (time : Timestamp) :
    Option TimeseriesValue :=
  (lastAt RawTimeseriesPoint.time time (writes history p s)).map (·.value)

/-- The kind of the first value written for a sequence. -/
def firstKind (history : List InsertCall) (p : ProjectId) (s : SequenceId) : Option Nat :=
  (writes history p s).head?.map fun point => valueIndex point.value

/-- The pairs a history writes. -/
def writtenPairs (history : List InsertCall) : List (ProjectId × SequenceId) :=
  history.flatMap fun call => call.batch.points.map fun point => (call.projectId, point.sequenceId)

/-- The table names of some pairs do not collide. -/
def NamesApart (pairs : List (ProjectId × SequenceId)) : Prop :=
  ∀ a ∈ pairs, ∀ b ∈ pairs, tableName a.1 a.2 = tableName b.1 b.2 → a = b

@[simp] theorem writes_nil (p : ProjectId) (s : SequenceId) : writes [] p s = [] := rfl

theorem writes_snoc (history : List InsertCall) (call : InsertCall) (p : ProjectId)
    (s : SequenceId) :
    writes (history ++ [call]) p s = writes history p s ++ writesOf p s call := by
  rw [writes, List.flatMap_append, List.flatMap_singleton]
  rfl

/-- The tables written after one more insert. -/
theorem mem_writtenPairs_snoc {history : List InsertCall} {call : InsertCall}
    {pair : ProjectId × SequenceId} :
    pair ∈ writtenPairs (history ++ [call]) ↔
      pair ∈ writtenPairs history ∨
        pair.1 = call.projectId ∧ ∃ point ∈ call.batch.points, point.sequenceId = pair.2 := by
  rw [writtenPairs, List.flatMap_append, List.flatMap_singleton, List.mem_append, List.mem_map]
  refine or_congr_right ⟨?_, ?_⟩
  · rintro ⟨point, hpoint, rfl⟩
    exact ⟨rfl, point, hpoint, rfl⟩
  · rintro ⟨hproject, point, hpoint, hs⟩
    exact ⟨point, hpoint, by rw [hs, ← hproject]⟩

/-! ## The groups of a batch -/

theorem groupIds_eq (points : List RawTimeseriesPoint) :
    groupIds points = (points.map (·.sequenceId)).foldl (fun seen id => pushUnique id seen) [] := by
  rw [groupIds, List.foldl_map]

theorem mem_groupIds {points : List RawTimeseriesPoint} {s : SequenceId} :
    s ∈ groupIds points ↔ ∃ point ∈ points, point.sequenceId = s := by
  rw [groupIds_eq, mem_foldl_pushUnique, List.mem_map]
  simp

theorem nodup_groupIds (points : List RawTimeseriesPoint) : (groupIds points).Nodup := by
  rw [groupIds_eq]
  exact nodup_foldl_pushUnique _ List.nodup_nil

/-- The points of a group that passed have one kind. -/
theorem kind_of_checkGroup {s : SequenceId} {first : RawTimeseriesPoint}
    {rest : List RawTimeseriesPoint} (h : checkGroup s (first :: rest) = none) :
    ∀ point ∈ first :: rest, valueIndex point.value = valueIndex first.value := by
  intro point hpoint
  rw [checkGroup] at h
  split at h
  · cases h
  · split at h
    · cases h
    · rename_i hkinds
      by_contra hne
      exact hkinds (List.any_eq_true.mpr ⟨point, hpoint, decide_eq_true hne⟩)

/-- A batch that passes the checks passes them group by group. -/
theorem checkGroup_of_insertChecks {points : List RawTimeseriesPoint}
    (h : insertChecks points = none) {s : SequenceId} (hs : s ∈ groupIds points) :
    checkGroup s (incomingFor s points) = none := by
  rw [insertChecks] at h
  split at h
  · cases h
  · split at h
    · cases h
    · exact List.findSome?_eq_none_iff.mp h s hs

/-- The loop that sets the tag ends with the kind of the group. -/
theorem tagValueType_of_kind {kind : Nat} {points : List RawTimeseriesPoint} (hne : points ≠ [])
    (h : ∀ point ∈ points, valueIndex point.value = kind) : tagValueType points = kind := by
  obtain ⟨init, last, rfl⟩ : ∃ init last, points = init ++ [last] :=
    ⟨points.dropLast, points.getLast hne, (List.dropLast_append_getLast hne).symm⟩
  rw [tagValueType, List.foldl_append]
  show ((valueIndex last.value : Nat) : Int) = kind
  rw [h last (List.mem_append_right init (List.mem_singleton_self last))]

/-! ## The tables a history leaves -/

/-- The rows some writes leave in a table. -/
def storeRows (points : List RawTimeseriesPoint) (rows : Table Timestamp ValueColumns) :
    Table Timestamp ValueColumns :=
  points.foldl (fun rows point => put point.time (boundColumns point.value) rows) rows

theorem storeRows_append (earlier later : List RawTimeseriesPoint)
    (rows : Table Timestamp ValueColumns) :
    storeRows (earlier ++ later) rows = storeRows later (storeRows earlier rows) :=
  List.foldl_append

/-- The table a sequence has after some writes. -/
def childTable (baseName : String) (p : ProjectId) (s : SequenceId) :
    List RawTimeseriesPoint → Option ChildTable
  | [] => none
  | first :: rest =>
      some
        { stable := projectStableName baseName p
          sequenceIdTag := s
          valueTypeTag := valueIndex first.value
          rows := storeRows (first :: rest) KeyedTable.empty }

/-- The table `writeGroup` puts, over the one that was there. -/
def written (baseName : String) (p : ProjectId) (points : List RawTimeseriesPoint)
    (s : SequenceId) (old : Option ChildTable) : ChildTable :=
  let child := old.getD
    { stable := projectStableName baseName p
      sequenceIdTag := s
      valueTypeTag := tagValueType (incomingFor s points)
      rows := KeyedTable.empty }
  { child with rows := storeRows (incomingFor s points) child.rows }

theorem writeGroup_eq (baseName : String) (p : ProjectId) (points : List RawTimeseriesPoint)
    (database : Database) (s : SequenceId) :
    writeGroup baseName p points database s =
      put (tableName p s) (written baseName p points s (database.find (tableName p s)))
        database := rfl

/-- A row is that of the last write at its time. -/
theorem find_storeRows (points : List RawTimeseriesPoint) (rows : Table Timestamp ValueColumns)
    (time : Timestamp) :
    (storeRows points rows).find time =
      ((lastAt RawTimeseriesPoint.time time points).map fun point =>
        boundColumns point.value).or (rows.find time) := by
  induction points generalizing rows with
  | nil => rfl
  | cons point points ih =>
      show (storeRows points (put point.time (boundColumns point.value) rows)).find time = _
      rw [ih, lastAt_cons, find_put]
      cases hlast : lastAt RawTimeseriesPoint.time time points with
      | some last => rfl
      | none =>
          by_cases htime : time = point.time
          · rw [if_pos htime, if_pos htime.symm]
            rfl
          · rw [if_neg htime, if_neg (Ne.symm htime)]
            rfl

/-- A group of one kind appends to the writes of its sequence. -/
theorem written_childTable {baseName : String} {p : ProjectId} {s : SequenceId}
    {points old : List RawTimeseriesPoint} (hne : incomingFor s points ≠ [])
    (h : checkGroup s (incomingFor s points) = none) :
    some (written baseName p points s (childTable baseName p s old)) =
      childTable baseName p s (old ++ incomingFor s points) := by
  cases old with
  | cons first rest =>
      have htable : childTable baseName p s (first :: rest ++ incomingFor s points) =
          some
            { stable := projectStableName baseName p
              sequenceIdTag := s
              valueTypeTag := valueIndex first.value
              rows := storeRows (first :: rest ++ incomingFor s points) KeyedTable.empty } := rfl
      rw [htable, storeRows_append]
      rfl
  | nil =>
      -- the table is created, its tag the kind of the group
      cases hgroup : incomingFor s points with
      | nil => exact absurd hgroup hne
      | cons first rest =>
          rw [hgroup] at h
          have htag := tagValueType_of_kind (List.cons_ne_nil first rest) (kind_of_checkGroup h)
          rw [written, hgroup, htag]
          rfl

/-! ## The database of a history -/

/-- What an accepted insert has checked, and what it leaves. -/
theorem runInsert_accepted {baseName : String} {call : InsertCall} {database : Database}
    (h : (runInsert baseName call database).2.code = .ok) :
    insertChecks call.batch.points = none ∧
      (runInsert baseName call database).1 =
        (groupIds call.batch.points).foldl
          (writeGroup baseName call.projectId call.batch.points) database := by
  rw [runInsert, insertRawOnConnection] at h ⊢
  split at h
  · cases h
  · rename_i hpoints
    rw [if_neg hpoints]
    split at h
    · cases h
    · rename_i hproject
      rw [if_neg hproject]
      split at h
      · cases h
      · rename_i hchecks
        refine ⟨hchecks, ?_⟩
        by_cases hrows : call.affectedRows ≠ call.batch.points.length
        · rw [if_pos hrows]
        · rw [if_neg hrows]

/-- The tables after the groups of a batch: each group at its own table. -/
theorem find_writeGroups {baseName : String} {p : ProjectId} {points : List RawTimeseriesPoint}
    {pairs : List (ProjectId × SequenceId)} (hapart : NamesApart pairs) {ids : List SequenceId}
    (hids : ∀ s ∈ ids, (p, s) ∈ pairs) (hnodup : ids.Nodup) (database : Database)
    {pair : ProjectId × SequenceId} (hpair : pair ∈ pairs) :
    (ids.foldl (writeGroup baseName p points) database).find (tableName pair.1 pair.2) =
      if pair.1 = p ∧ pair.2 ∈ ids then
        some (written baseName p points pair.2 (database.find (tableName pair.1 pair.2)))
      else database.find (tableName pair.1 pair.2) := by
  induction ids generalizing database with
  | nil => simp
  | cons s ids ih =>
      obtain ⟨hs, hnodup'⟩ := List.nodup_cons.mp hnodup
      rw [List.foldl_cons, ih (fun t ht => hids t (List.mem_cons_of_mem s ht)) hnodup',
        writeGroup_eq, find_put]
      by_cases hself : pair = (p, s)
      · -- its own group: written now, and by no later group
        subst hself
        rw [if_neg fun hlater => hs hlater.2, if_pos rfl, if_pos ⟨rfl, List.mem_cons_self ..⟩]
      · have hname : tableName pair.1 pair.2 ≠ tableName p s := fun e =>
          hself (hapart pair hpair (p, s) (hids s (List.mem_cons_self ..)) e)
        have hiff : pair.1 = p ∧ pair.2 ∈ s :: ids ↔ pair.1 = p ∧ pair.2 ∈ ids := by
          refine and_congr_right fun hproject => ?_
          rw [List.mem_cons, or_iff_right fun e => hself (Prod.ext hproject e)]
        rw [if_neg hname]
        simp only [hiff]

/-- Writing a batch adds the tables of its groups only. -/
theorem keys_writeGroups (baseName : String) (p : ProjectId) (points : List RawTimeseriesPoint)
    (ids : List SequenceId) (database : Database) {name : String}
    (h : name ∈ (ids.foldl (writeGroup baseName p points) database).keys) :
    name ∈ database.keys ∨ ∃ s ∈ ids, name = tableName p s := by
  induction ids generalizing database with
  | nil => exact Or.inl h
  | cons s ids ih =>
      rcases ih _ h with hold | ⟨t, ht, hname⟩
      · rw [writeGroup_eq, mem_keys_put] at hold
        rcases hold with hname | hkey
        · exact Or.inr ⟨s, List.mem_cons_self .., hname⟩
        · exact Or.inl hkey
      · exact Or.inr ⟨t, List.mem_cons_of_mem s ht, hname⟩

/-- The database against a history: the table of each sequence holds its writes, and
    there are no other tables. -/
structure Mirror (baseName : String) (pairs : List (ProjectId × SequenceId))
    (history : List InsertCall) (database : Database) : Prop where
  tables : ∀ pair ∈ pairs, database.find (tableName pair.1 pair.2) =
    childTable baseName pair.1 pair.2 (writes history pair.1 pair.2)
  names : ∀ name ∈ database.keys, ∃ pair ∈ writtenPairs history, name = tableName pair.1 pair.2

/-- One accepted insert. -/
theorem Mirror.insert {baseName : String} {pairs : List (ProjectId × SequenceId)}
    {history : List InsertCall} {database : Database} {call : InsertCall}
    (hmirror : Mirror baseName pairs history database) (hapart : NamesApart pairs)
    (hpairs : ∀ pair ∈ writtenPairs (history ++ [call]), pair ∈ pairs)
    (h : (runInsert baseName call database).2.code = .ok) :
    Mirror baseName pairs (history ++ [call]) (runInsert baseName call database).1 := by
  obtain ⟨hchecks, hdatabase⟩ := runInsert_accepted h
  have hids : ∀ s ∈ groupIds call.batch.points, (call.projectId, s) ∈ pairs := by
    intro s hs
    exact hpairs _ (mem_writtenPairs_snoc.mpr (Or.inr ⟨rfl, mem_groupIds.mp hs⟩))
  refine ⟨fun pair hpair => ?_, fun name hname => ?_⟩
  · rw [hdatabase, find_writeGroups hapart hids (nodup_groupIds _) database hpair,
      hmirror.tables pair hpair, writes_snoc, writesOf]
    split
    · -- a group of this batch
      rename_i hmem
      obtain ⟨point, hpoint, hs⟩ := mem_groupIds.mp hmem.2
      have hne := List.ne_nil_of_mem (mem_incomingFor.mpr ⟨hpoint, hs⟩)
      rw [if_pos hmem.1.symm, ← hmem.1]
      exact written_childTable hne (checkGroup_of_insertChecks hchecks hmem.2)
    · rename_i hmem
      by_cases hproject : call.projectId = pair.1
      · have hnone : incomingFor pair.2 call.batch.points = [] := by
          refine List.eq_nil_iff_forall_not_mem.mpr fun point hpoint => hmem ⟨hproject.symm, ?_⟩
          exact mem_groupIds.mpr ⟨point, mem_incomingFor.mp hpoint⟩
        rw [if_pos hproject, hnone, List.append_nil]
      · rw [if_neg hproject, List.append_nil]
  · rw [hdatabase] at hname
    rcases keys_writeGroups _ _ _ _ _ hname with hold | ⟨s, hs, rfl⟩
    · obtain ⟨pair, hpair, e⟩ := hmirror.names name hold
      exact ⟨pair, mem_writtenPairs_snoc.mpr (Or.inl hpair), e⟩
    · exact ⟨(call.projectId, s), mem_writtenPairs_snoc.mpr (Or.inr ⟨rfl, mem_groupIds.mp hs⟩), rfl⟩

/-- Every history of accepted inserts. -/
theorem mirror_of_run {baseName : String} {pairs : List (ProjectId × SequenceId)}
    {history : List InsertCall} {database : Database} (hrun : ColdRun baseName history database)
    (hapart : NamesApart pairs) (hpairs : ∀ pair ∈ writtenPairs history, pair ∈ pairs) :
    Mirror baseName pairs history database := by
  induction hrun with
  | start => exact ⟨fun _ _ => rfl, fun _ hname => absurd hname List.not_mem_nil⟩
  | insert call hrun haccepted ih =>
      have hold := ih fun pair hpair => hpairs pair (mem_writtenPairs_snoc.mpr (Or.inl hpair))
      exact hold.insert hapart hpairs haccepted

/-! ## The rows of a query -/

/-- The rows of a child table in a range. -/
theorem mem_childRows {start finish : Timestamp} {child : ChildTable} {row : ResultRow} :
    row ∈ childRows start finish child ↔
      (start ≤ row.time ∧ row.time < finish) ∧ row.sequenceId = child.sequenceIdTag ∧
        row.valueType = child.valueTypeTag ∧ child.rows.find row.time = some row.columns := by
  rw [childRows, List.mem_filterMap]
  constructor
  · rintro ⟨time, htime, hrow⟩
    obtain ⟨columns, hcolumns, rfl⟩ := Option.map_eq_some_iff.mp hrow
    exact ⟨of_decide_eq_true (List.mem_filter.mp htime).2, rfl, rfl, hcolumns⟩
  · rintro ⟨hrange, hid, htype, hcolumns⟩
    refine ⟨row.time, List.mem_filter.mpr ⟨?_, decide_eq_true hrange⟩, ?_⟩
    · rw [child.rows.mem_keys, hcolumns]
      rfl
    · rw [hcolumns, ← hid, ← htype]
      rfl

theorem nodup_childRows (start finish : Timestamp) (child : ChildTable) :
    (childRows start finish child).Nodup := by
  refine (child.rows.nodup.filter _).filterMap fun time time' row hrow hrow' => ?_
  obtain ⟨columns, -, rfl⟩ := Option.map_eq_some_iff.mp hrow
  obtain ⟨columns', -, e⟩ := Option.map_eq_some_iff.mp hrow'
  exact (congrArg ResultRow.time e).symm

/-- The rows a query takes from one table. -/
theorem mem_tableRows {stable : String} {ids : List SequenceId} {start finish : Timestamp}
    {found : Option ChildTable} {row : ResultRow} :
    row ∈ tableRows stable ids start finish found ↔
      ∃ child, found = some child ∧ (child.stable = stable ∧ child.sequenceIdTag ∈ ids) ∧
        row ∈ childRows start finish child := by
  cases found with
  | none => simp [tableRows]
  | some child =>
      by_cases hselected : child.stable = stable ∧ child.sequenceIdTag ∈ ids
      · simp [tableRows, hselected]
      · simp [tableRows, hselected]

/-- A query takes no row of a table twice. -/
theorem nodup_tableRows (stable : String) (ids : List SequenceId) (start finish : Timestamp)
    (found : Option ChildTable) : (tableRows stable ids start finish found).Nodup := by
  cases found with
  | none => exact List.nodup_nil
  | some child =>
      rw [tableRows]
      split
      · exact nodup_childRows start finish child
      · exact List.nodup_nil

section Query

variable {baseName : String} {history : List InsertCall} {database : Database} {p : ProjectId}
  {ids : List SequenceId} {pairs : List (ProjectId × SequenceId)}

/-- A table the query reads is that of a requested sequence. -/
theorem Mirror.requested (hmirror : Mirror baseName pairs history database)
    (hapart : NamesApart pairs) (hpairs : ∀ pair ∈ writtenPairs history, pair ∈ pairs)
    (hids : ∀ s ∈ ids, (p, s) ∈ pairs) {name : String} {child : ChildTable}
    (hfind : database.find name = some child)
    (hstable : child.stable = projectStableName baseName p) (htag : child.sequenceIdTag ∈ ids) :
    name = tableName p child.sequenceIdTag ∧
      childTable baseName p child.sequenceIdTag (writes history p child.sequenceIdTag) =
        some child := by
  obtain ⟨⟨q, s⟩, hwritten, rfl⟩ :=
    hmirror.names name ((database.mem_keys name).mpr (by rw [hfind]; rfl))
  have htable := hmirror.tables (q, s) (hpairs _ hwritten)
  rw [hfind] at htable
  cases hwrites : writes history q s with
  | nil =>
      rw [hwrites] at htable
      cases htable
  | cons first rest =>
      rw [hwrites] at htable
      have hchild := Option.some.inj htable
      have hs : child.sequenceIdTag = s := by rw [hchild]
      have hq : child.stable = projectStableName baseName q := by rw [hchild]
      rw [hs] at htag ⊢
      -- a project that shares the stable is the project
      have hname := tableName_of_stable (hq.symm.trans hstable) s
      obtain ⟨rfl, -⟩ := Prod.mk.inj (hapart (q, s) (hpairs _ hwritten) (p, s) (hids s htag) hname)
      exact ⟨rfl, by rw [hwrites, htable]⟩

/-- The rows of a query are the last values written in its range. -/
theorem Mirror.mem_selectRows (hmirror : Mirror baseName pairs history database)
    (hapart : NamesApart pairs) (hpairs : ∀ pair ∈ writtenPairs history, pair ∈ pairs)
    (hids : ∀ s ∈ ids, (p, s) ∈ pairs) {start finish : Timestamp} {row : ResultRow} :
    row ∈ selectRows (projectStableName baseName p) ids start finish database ↔
      row.sequenceId ∈ ids ∧ (start ≤ row.time ∧ row.time < finish) ∧
        ∃ kind value, firstKind history p row.sequenceId = some kind ∧
          lastWritten history p row.sequenceId row.time = some value ∧
          row.valueType = kind ∧ row.columns = boundColumns value := by
  -- what a table with writes holds
  have hrows : ∀ {s : SequenceId} {child : ChildTable},
      childTable baseName p s (writes history p s) = some child →
        child.sequenceIdTag = s ∧ child.stable = projectStableName baseName p ∧
          (∃ kind : Nat, firstKind history p s = some kind ∧ child.valueTypeTag = kind) ∧
          ∀ time, child.rows.find time = (lastWritten history p s time).map boundColumns := by
    intro s child hchild
    cases hwrites : writes history p s with
    | nil =>
        rw [hwrites] at hchild
        cases hchild
    | cons first rest =>
        rw [hwrites] at hchild
        obtain rfl := Option.some.inj hchild
        refine ⟨rfl, rfl, ⟨valueIndex first.value, by rw [firstKind, hwrites]; rfl, rfl⟩,
          fun time => ?_⟩
        rw [find_storeRows, lastWritten, hwrites, Option.map_map, find_empty, Option.or_none]
        rfl
  rw [selectRows, List.mem_flatMap]
  constructor
  · rintro ⟨name, -, hrow⟩
    obtain ⟨child, hfind, ⟨hstable, htagged⟩, hchildRow⟩ := mem_tableRows.mp hrow
    obtain ⟨hrange, hid, htype, hcolumns⟩ := mem_childRows.mp hchildRow
    obtain ⟨-, hchild⟩ := hmirror.requested hapart hpairs hids hfind hstable htagged
    obtain ⟨-, -, ⟨kind, hkind, htag⟩, hvalues⟩ := hrows hchild
    rw [hvalues] at hcolumns
    obtain ⟨value, hvalue, hbound⟩ := Option.map_eq_some_iff.mp hcolumns
    rw [hid]
    exact ⟨htagged, hrange, kind, value, hkind, hvalue, htype.trans htag, hbound.symm⟩
  · rintro ⟨hid, hrange, kind, value, hkind, hvalue, htype, hcolumns⟩
    have htable := hmirror.tables (p, row.sequenceId) (hids _ hid)
    cases hchild : childTable baseName p row.sequenceId (writes history p row.sequenceId) with
    | none =>
        cases hwrites : writes history p row.sequenceId with
        | nil =>
            rw [firstKind, hwrites] at hkind
            cases hkind
        | cons first rest =>
            rw [hwrites] at hchild
            cases hchild
    | some child =>
        rw [hchild] at htable
        obtain ⟨hs, hstable, ⟨kind', hkind', htag⟩, hvalues⟩ := hrows hchild
        rw [hkind] at hkind'
        obtain rfl := Option.some.inj hkind'
        refine ⟨tableName p row.sequenceId, (database.mem_keys _).mpr (by rw [htable]; rfl), ?_⟩
        refine mem_tableRows.mpr ⟨child, htable, ⟨hstable, by rw [hs]; exact hid⟩, ?_⟩
        refine mem_childRows.mpr ⟨hrange, hs.symm, htype.trans htag.symm, ?_⟩
        rw [hvalues, hvalue, hcolumns]
        rfl

/-- A query returns no row twice. -/
theorem Mirror.nodup_selectRows (hmirror : Mirror baseName pairs history database)
    (hapart : NamesApart pairs) (hpairs : ∀ pair ∈ writtenPairs history, pair ∈ pairs)
    (hids : ∀ s ∈ ids, (p, s) ∈ pairs) (start finish : Timestamp) :
    (selectRows (projectStableName baseName p) ids start finish database).Nodup := by
  rw [selectRows, List.nodup_flatMap]
  refine ⟨fun name _ => nodup_tableRows .., database.nodup.imp fun {name name'} hne => ?_⟩
  -- rows of two tables have two sequences
  have hname : ∀ {name : String} {row : ResultRow},
      row ∈ tableRows (projectStableName baseName p) ids start finish (database.find name) →
        name = tableName p row.sequenceId := by
    intro name row hrow
    obtain ⟨child, hfind, ⟨hstable, htagged⟩, hchildRow⟩ := mem_tableRows.mp hrow
    rw [(mem_childRows.mp hchildRow).2.1]
    exact (hmirror.requested hapart hpairs hids hfind hstable htagged).1
  intro row hrow hrow'
  exact hne ((hname hrow).trans (hname hrow').symm)

end Query

/-! ## The round trip -/

theorem columnValue_bound (kind : TimeseriesValue) (value : TimeseriesValue) :
    columnValue (boundColumns value) (kindOfType (valueIndex kind)) =
      if valueIndex value = valueIndex kind then some value else none := by
  cases kind <;> cases value <;> rfl

/-- The outcome of a query against a history: every requested sequence with the last
    value of every time in the interval, by time and requested order, and no more. -/
structure RoundTrip (history : List InsertCall) (p : ProjectId) (ids : List SequenceId)
    (start finish : Timestamp) (outcome : TimeseriesBatch × OperationResult) : Prop where
  ok : outcome.2.code = .ok
  project : outcome.1.projectId = p
  exact : ∀ point : RawTimeseriesPoint, point ∈ outcome.1.points ↔
    point.projectId = p ∧ point.sequenceId ∈ ids ∧ (start ≤ point.time ∧ point.time < finish) ∧
      lastWritten history p point.sequenceId point.time = some point.value
  once : outcome.1.points.Nodup
  ordered : outcome.1.points.Pairwise (timeThenRequested ids)

/-- In the interval no requested sequence has a value of another kind than its first. -/
def KindsKept (history : List InsertCall) (p : ProjectId) (ids : List SequenceId)
    (start finish : Timestamp) : Prop :=
  ∀ s ∈ ids, ∀ time, start ≤ time → time < finish → ∀ value,
    lastWritten history p s time = some value → firstKind history p s = some (valueIndex value)

/-- A sequence with a value has a first kind. -/
theorem firstKind_of_written {history : List InsertCall} {p : ProjectId} {s : SequenceId}
    {time : Timestamp} {value : TimeseriesValue} (h : lastWritten history p s time = some value) :
    ∃ first : TimeseriesValue, firstKind history p s = some (valueIndex first) := by
  cases hwrites : writes history p s with
  | nil =>
      rw [lastWritten, hwrites] at h
      cases h
  | cons first rest =>
      exact ⟨first.value, by rw [firstKind, hwrites]; rfl⟩

/-- A row of a sequence whose first value is `first` has a point iff its value is of
    that kind. -/
theorem decodeGeneric_row {p : ProjectId} {row : ResultRow} {first value : TimeseriesValue}
    (htype : row.valueType = (valueIndex first : Int)) (hcolumns : row.columns = boundColumns value) :
    decodeGeneric p row =
      if valueIndex value = valueIndex first then some (pointOf p row value) else none := by
  rw [decodeGeneric, htype, hcolumns, columnValue_bound]
  split
  · rfl
  · rfl

section Exact

variable {baseName : String} {history : List InsertCall} {database : Database} {p : ProjectId}
  {ids : List SequenceId} {start finish : Timestamp}

/-- Rows that hold what the history wrote. -/
def RowsOf (history : List InsertCall) (p : ProjectId) (ids : List SequenceId)
    (start finish : Timestamp) (rows : List ResultRow) : Prop :=
  ∀ row : ResultRow, row ∈ rows ↔
    row.sequenceId ∈ ids ∧ (start ≤ row.time ∧ row.time < finish) ∧
      ∃ kind value, firstKind history p row.sequenceId = some kind ∧
        lastWritten history p row.sequenceId row.time = some value ∧
        row.valueType = kind ∧ row.columns = boundColumns value

variable {rows : List ResultRow}

theorem RowsOf.apart (hrows : RowsOf history p ids start finish rows) {row row' : ResultRow}
    (h : row ∈ rows) (h' : row' ∈ rows) (htime : row.time = row'.time)
    (hsequence : row.sequenceId = row'.sequenceId) : row = row' := by
  obtain ⟨-, -, kind, value, hkind, hvalue, htype, hcolumns⟩ := (hrows row).mp h
  obtain ⟨-, -, kind', value', hkind', hvalue', htype', hcolumns'⟩ := (hrows row').mp h'
  rw [hsequence, hkind'] at hkind
  rw [hsequence, htime, hvalue'] at hvalue
  obtain rfl := Option.some.inj hkind
  obtain rfl := Option.some.inj hvalue
  cases row
  cases row'
  simp_all

/-- With the kinds kept, each row is the point that was written. -/
theorem RowsOf.decode (hrows : RowsOf history p ids start finish rows)
    (hkept : KindsKept history p ids start finish) {row : ResultRow} (h : row ∈ rows) :
    ∃ value, lastWritten history p row.sequenceId row.time = some value ∧
      decodeGeneric p row = some (pointOf p row value) := by
  obtain ⟨hid, hrange, kind, value, hkind, hvalue, htype, hcolumns⟩ := (hrows row).mp h
  have hsame := hkept _ hid _ hrange.1 hrange.2 value hvalue
  rw [hkind] at hsame
  rw [Option.some.inj hsame] at htype
  exact ⟨value, hvalue, by rw [decodeGeneric_row htype hcolumns, if_pos rfl]⟩

/-- The points of such rows, in order, are the round trip. -/
theorem RowsOf.roundTrip (hrows : RowsOf history p ids start finish rows) (hnodup : rows.Nodup)
    (hkept : KindsKept history p ids start finish) (out : TimeseriesBatch)
    {result : OperationResult} (hcode : result.code = .ok) :
    RoundTrip history p ids start finish
      ({ out with projectId := p, points := orderPoints ids (rows.map (decoded p)) }, result) := by
  have hdecoded : ∀ row ∈ rows, ∃ value,
      lastWritten history p row.sequenceId row.time = some value ∧
        decoded p row = pointOf p row value := by
    intro row hrow
    obtain ⟨value, hvalue, hdecode⟩ := hrows.decode hkept hrow
    have hpoint := decodeGeneric_of_isSome (by rw [hdecode]; rfl : (decodeGeneric p row).isSome)
    exact ⟨value, hvalue, Option.some.inj (hpoint.symm.trans hdecode)⟩
  obtain ⟨hperm, hordered⟩ := orderPoints_spec ids (rows.map (decoded p))
  refine ⟨hcode, rfl, fun point => ?_, ?_, hordered⟩
  · show point ∈ orderPoints ids (rows.map (decoded p)) ↔ _
    rw [hperm.mem_iff, List.mem_map]
    constructor
    · rintro ⟨row, hrow, rfl⟩
      obtain ⟨value, hvalue, hpoint⟩ := hdecoded row hrow
      obtain ⟨hid, hrange, -⟩ := (hrows row).mp hrow
      rw [hpoint]
      exact ⟨rfl, hid, hrange, hvalue⟩
    · rintro ⟨hproject, hid, hrange, hvalue⟩
      obtain ⟨first, hfirst⟩ := firstKind_of_written hvalue
      -- the row the database keeps for this point
      have hrow := (hrows
        { time := point.time
          sequenceId := point.sequenceId
          valueType := (valueIndex first : Int)
          columns := boundColumns point.value }).mpr
        ⟨hid, hrange, valueIndex first, point.value, hfirst, hvalue, rfl, rfl⟩
      obtain ⟨value, hvalue', hpoint⟩ := hdecoded _ hrow
      refine ⟨_, hrow, ?_⟩
      have hsame : value = point.value := Option.some.inj (hvalue'.symm.trans hvalue)
      rw [hpoint, hsame, ← hproject]
      rfl
  · refine (hperm.nodup_iff).mpr (List.Nodup.map_on (fun row hrow row' hrow' e => ?_) hnodup)
    exact hrows.apart hrow hrow' (congrArg RawTimeseriesPoint.time e)
      (congrArg RawTimeseriesPoint.sequenceId e)

end Exact

/-- A cold query after any history of accepted inserts: the hints do not show, and it
    is exact iff the request is valid and no value it selects has changed its kind. -/
theorem round_trip_exact {baseName : String} {history : List InsertCall} {database : Database}
    (hrun : ColdRun baseName history database) (p : ProjectId) (ids : List SequenceId)
    (start finish : Timestamp) (hlt : start < finish)
    (hapart : NamesApart (writtenPairs history ++ ids.map fun s => (p, s)))
    (kinds : Option (Table SequenceId TimeseriesValueKind))
    (arrange : Bool → List ResultRow → List ResultRow)
    (harr : ∀ typed rows, (arrange typed rows).Perm rows) (out : TimeseriesBatch) :
    queryRaw baseName p ids start finish kinds arrange database out =
        queryRaw baseName p ids start finish none (fun _ rows => rows) database out ∧
      (RoundTrip history p ids start finish
          (queryRaw baseName p ids start finish kinds arrange database out) ↔
        ValidRequest p ids ∧ KindsKept history p ids start finish) := by
  by_cases hvalid : ValidRequest p ids
  swap
  · obtain ⟨result, hcode, hresult⟩ := queryRaw_invalid baseName hvalid hlt
    rw [hresult, hresult]
    exact ⟨rfl, fun h => absurd h.ok hcode, fun h => absurd h.1 hvalid⟩
  have hpairs : ∀ pair ∈ writtenPairs history,
      pair ∈ writtenPairs history ++ ids.map fun s => (p, s) :=
    fun pair hpair => List.mem_append_left _ hpair
  have hids : ∀ s ∈ ids, (p, s) ∈ writtenPairs history ++ ids.map fun s => (p, s) :=
    fun s hs => List.mem_append_right _ (List.mem_map_of_mem hs)
  have hmirror := mirror_of_run hrun hapart hpairs
  have hrows : RowsOf history p ids start finish
      (selectRows (projectStableName baseName p) ids start finish database) :=
    fun row => hmirror.mem_selectRows hapart hpairs hids
  have hplain : ∀ (_ : Bool) (rows : List ResultRow), rows.Perm rows := fun _ rows => List.Perm.refl rows
  by_cases hkept : KindsKept history p ids start finish
  · have houtcome := fun kinds (arrange : Bool → List ResultRow → List ResultRow) harr =>
      queryRaw_of_decoded hvalid hlt kinds out (show ∀ typed rows, (arrange typed rows).Perm rows from harr)
        (fun row hrow => ((hrows row).mp hrow).1)
        (fun row hrow row' hrow' => hrows.apart hrow hrow')
        (fun row hrow => by
          obtain ⟨value, -, hdecode⟩ := hrows.decode hkept hrow
          rw [hdecode]
          rfl)
    refine ⟨(houtcome kinds arrange harr).trans (houtcome none _ hplain).symm, fun _ => ⟨hvalid, hkept⟩,
      fun _ => ?_⟩
    rw [houtcome kinds arrange harr]
    exact hrows.roundTrip (hmirror.nodup_selectRows hapart hpairs hids start finish) hkept out rfl
  · -- a value that changed its kind: its row has no point
    simp only [KindsKept, not_forall] at hkept
    obtain ⟨s, hs, time, hge, htime, value, hvalue, hchanged⟩ := hkept
    obtain ⟨first, hfirst⟩ := firstKind_of_written hvalue
    have hne : valueIndex value ≠ valueIndex first := fun e => hchanged (by rw [hfirst, e])
    have hrow := (hrows
      { time := time
        sequenceId := s
        valueType := (valueIndex first : Int)
        columns := boundColumns value }).mpr
      ⟨hs, ⟨hge, htime⟩, valueIndex first, value, hfirst, hvalue, rfl, rfl⟩
    have hnone := @decodeGeneric_row p ⟨time, s, (valueIndex first : Int), boundColumns value⟩ first
      value rfl rfl
    rw [if_neg hne] at hnone
    have houtcome := fun kinds (arrange : Bool → List ResultRow → List ResultRow) harr =>
      queryRaw_of_mismatch hvalid hlt kinds out (show ∀ typed rows, (arrange typed rows).Perm rows from harr)
        hrow hnone
    refine ⟨(houtcome kinds arrange harr).trans (houtcome none _ hplain).symm, fun h => ?_, fun h => ?_⟩
    · have hok := h.ok
      rw [houtcome kinds arrange harr] at hok
      cases hok
    · exact absurd (h.2 s hs time hge htime value hvalue) hchanged

/-- One insert of one value. -/
def insertOne (value : TimeseriesValue) (time : Timestamp) : InsertCall :=
  { projectId := "p"
    connectionIndex := 0
    affectedRows := 1
    batch :=
      { projectId := "p"
        points := [{ time := time, sequenceId := "s", value := value, projectId := "p" }] } }

theorem insertOne_accepted (n : Int) (time : Timestamp) (database : Database) :
    (runInsert "raw" (insertOne (.int64 n) time) database).2.code = .ok := rfl

theorem insertOne_bool_accepted (b : Bool) (time : Timestamp) (database : Database) :
    (runInsert "raw" (insertOne (.bool b) time) database).2.code = .ok := rfl

theorem namesApart_of_one {pairs : List (ProjectId × SequenceId)}
    (h : ∀ pair ∈ pairs, pair = ("p", "s")) : NamesApart pairs :=
  fun a ha b hb _ => (h a ha).trans (h b hb).symm

theorem validRequest_one : ValidRequest "p" ["s"] :=
  ⟨by decide, by decide, by decide, by decide⟩

/-- A value overwritten at its time, read back. -/
theorem round_trip_exact_rewritten :
    ∃ database, ColdRun "raw" [insertOne (.int64 1) 0, insertOne (.int64 2) 0] database ∧
      RoundTrip [insertOne (.int64 1) 0, insertOne (.int64 2) 0] "p" ["s"] 0 5
        (queryRaw "raw" "p" ["s"] 0 5 (some (put "s" .int64 KeyedTable.empty))
          (fun _ rows => rows.reverse) database { projectId := "", points := [] }) := by
  have hfirst := ColdRun.start.insert (insertOne (.int64 1) 0) (insertOne_accepted 1 0 _)
  have hrun := hfirst.insert (insertOne (.int64 2) 0) (insertOne_accepted 2 0 _)
  have hkept : KindsKept [insertOne (.int64 1) 0, insertOne (.int64 2) 0] "p" ["s"] 0 5 := by
    intro s hs time _ _ value hvalue
    obtain rfl := List.mem_singleton.mp hs
    obtain ⟨point, hpoint, rfl⟩ := Option.map_eq_some_iff.mp hvalue
    have hmem : point ∈ (insertOne (.int64 1) 0).batch.points ++
        (insertOne (.int64 2) 0).batch.points := (lastAt_some RawTimeseriesPoint.time hpoint).1
    rcases List.mem_append.mp hmem with h | h
    · obtain rfl := List.mem_singleton.mp h
      rfl
    · obtain rfl := List.mem_singleton.mp h
      rfl
  exact ⟨_, hrun, (round_trip_exact hrun "p" ["s"] 0 5 (by decide) (namesApart_of_one (by decide))
    (some (put "s" .int64 KeyedTable.empty)) (fun _ rows => rows.reverse)
    (fun _ rows => List.reverse_perm rows) _).2.mpr ⟨validRequest_one, hkept⟩⟩

/-- A sequence that held whole numbers is written as a truth value: both inserts are
    accepted, and no hint reads the second one back. -/
theorem changed_kind_not_read :
    ∃ database, ColdRun "raw" [insertOne (.int64 1) 0, insertOne (.bool true) 1] database ∧
      NamesApart [("p", "s"), ("p", "s"), ("p", "s")] ∧ ValidRequest "p" ["s"] ∧
      ∀ kinds, ¬ RoundTrip [insertOne (.int64 1) 0, insertOne (.bool true) 1] "p" ["s"] 0 5
        (queryRaw "raw" "p" ["s"] 0 5 kinds (fun _ rows => rows) database
          { projectId := "", points := [] }) := by
  have hfirst := ColdRun.start.insert (insertOne (.int64 1) 0) (insertOne_accepted 1 0 _)
  have hrun := hfirst.insert (insertOne (.bool true) 1) (insertOne_bool_accepted true 1 _)
  have hapart : NamesApart [("p", "s"), ("p", "s"), ("p", "s")] := namesApart_of_one (by decide)
  refine ⟨_, hrun, hapart, validRequest_one, fun kinds h => ?_⟩
  have hmirror := mirror_of_run hrun hapart (by decide)
  have hids : ∀ s ∈ ["s"], ("p", s) ∈ [("p", "s"), ("p", "s"), ("p", "s")] := by decide
  have hrow : ⟨1, "s", (valueIndex (.int64 1) : Int), boundColumns (.bool true)⟩ ∈
      selectRows (projectStableName "raw" "p") ["s"] 0 5 _ :=
    (hmirror.mem_selectRows hapart (by decide) hids).mpr
      ⟨by decide, by decide, 1, .bool true, by decide, by decide, rfl, rfl⟩
  have hok := h.ok
  rw [queryRaw_of_mismatch validRequest_one (by decide) kinds _
    (fun _ rows => List.Perm.refl rows) hrow rfl] at hok
  cases hok

end TaosClient
