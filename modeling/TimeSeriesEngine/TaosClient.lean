import TimeSeriesEngine.WindowService

/-!
# The cold store

`taos_client.cpp` over a database that is a map from child tables to their tags and
rows.  A value goes to one of four nullable columns; which one is recorded in a tag
of the table, written by the insert that creates the table and never again.

* `insertChecks` — what is checked before the database is contacted;
* `insertRawOnConnection` — one child table for each sequence of the batch;
* `queryRaw` — the typed projection with its fallback, and the generic one.

The database answers a query with the rows in an order of its own (`arrange`), says
how many rows an insert affected, and reads the statement as a C string.
-/

namespace TaosClient

open TseTypes KeyedTable HotWindow

/-- `TimeseriesValueKind`. -/
inductive TimeseriesValueKind where
  | unknown
  | double
  | int64
  | bool
  | string
  deriving DecidableEq

/-- `value.index()` of the variant. -/
def valueIndex : TimeseriesValue → Nat
  | .double _ => 0
  | .int64 _ => 1
  | .bool _ => 2
  | .string _ => 3

/-- The code of a kind in the `value_type` column. -/
def valueTypeCode : TimeseriesValueKind → Int
  | .double => 0
  | .int64 => 1
  | .bool => 2
  | .string => 3
  | .unknown => -1

/-! ## Names -/

/-- One byte of the hash. -/
def hashByte (hash : Nat) (byte : Nat) : Nat := ((hash ^^^ byte) * 1099511628211) % 2 ^ 64

/-- The bytes of a text join the hash. -/
def hashText (hash : Nat) (text : String) : Nat :=
  text.toUTF8.toList.foldl (fun hash byte => hashByte hash byte.toNat) hash

/-- The offset basis of FNV-1a. -/
def hashStart : Nat := 1469598103934665603

/-- `std::hex`. -/
def hexadecimal (hash : Nat) : String := String.ofList (Nat.toDigits 16 hash)

/-- `tableName`: the child table of a sequence. -/
def tableName (projectId : ProjectId) (sequenceId : SequenceId) : String :=
  "st_" ++ hexadecimal (hashText (hashByte (hashText hashStart projectId) 0xff) sequenceId)

/-- `projectStableName`: the super table of a project. -/
def projectStableName (baseName : String) (projectId : ProjectId) : String :=
  baseName ++ "_p_" ++ hexadecimal (hashText hashStart projectId)

/-! ## Statement text -/

/-- `escapeLiteral`. -/
def escapeLiteral (value : String) : String :=
  "'" ++ String.ofList (value.toList.flatMap fun ch =>
    if ch = '\\' ∨ ch = '\'' then ['\\', ch] else [ch]) ++ "'"

/-- The list behind `sequence_id IN (`, up to its closing bracket. -/
def sequenceList : List SequenceId → String
  | [] => ")"
  | [last] => escapeLiteral last ++ ")"
  | sequenceId :: rest => escapeLiteral sequenceId ++ "," ++ sequenceList rest

/-- `c_str()`: what the database sees of a statement. -/
def cString (text : String) : List Char := text.toList.takeWhile fun ch => decide (ch ≠ '\x00')

/-- Where the database is in a list of literals. -/
inductive ReadState where
  | start
  | body (read : List Char)
  | escaped (read : List Char)
  | closed
  | done
  deriving DecidableEq

/-- The database reads one character of a list of literals. -/
def readChar (state : ReadState × List SequenceId) (ch : Char) :
    Option (ReadState × List SequenceId) :=
  match state with
  | (.start, ids) => if ch = '\'' then some (.body [], ids) else none
  | (.body read, ids) =>
      if ch = '\\' then some (.escaped read, ids)
      else if ch = '\'' then some (.closed, ids ++ [String.ofList read])
      else some (.body (read ++ [ch]), ids)
  | (.escaped read, ids) => some (.body (read ++ [ch]), ids)
  | (.closed, ids) =>
      if ch = ',' then some (.start, ids) else if ch = ')' then some (.done, ids) else none
  | (.done, _) => none

/-- The ids of a list the database can read. -/
def readSequenceList (text : List Char) : Option (List SequenceId) :=
  match text.foldlM readChar (.start, []) with
  | some (.done, ids) => some ids
  | _ => none

/-! ## The database -/

/-- The four nullable value columns of a row. -/
structure ValueColumns where
  dValue : Option Double := none
  iValue : Option Int := none
  bValue : Option Bool := none
  sValue : Option String := none
  deriving DecidableEq

/-- A child table: the tags it was created with, and its rows. -/
structure ChildTable where
  stable : String
  sequenceIdTag : SequenceId
  valueTypeTag : Int
  rows : Table Timestamp ValueColumns

/-- The child tables, by name. -/
abbrev Database := Table String ChildTable

/-! ## Inserting -/

/-- A string that does not fit `NCHAR(256)`. -/
def longText : TimeseriesValue → Bool
  | .string text => decide (1024 < text.utf8ByteSize)
  | _ => false

/-- The checks of one group, in front of the database. -/
def checkGroup (sequenceId : SequenceId) (points : List RawTimeseriesPoint) : Option String :=
  match points with
  | [] => none
  | first :: _ =>
      if 512 < sequenceId.utf8ByteSize then
        some ("sequence_id exceeds NCHAR(128) UTF-8 capacity: " ++ sequenceId)
      else if points.any fun point => decide (valueIndex point.value ≠ valueIndex first.value) then
        some ("all values for one sequence_id must have the same type: " ++ sequenceId)
      else if decide (valueIndex first.value = 3) && points.any fun point => longText point.value then
        some ("string value exceeds NCHAR(256) UTF-8 capacity for sequence_id: " ++ sequenceId)
      else none

/-- The sequences of a batch, in order of first appearance. -/
def groupIds (points : List RawTimeseriesPoint) : List SequenceId :=
  points.foldl (fun seen point => pushUnique point.sequenceId seen) []

/-- What `insertRawOnConnection` checks on the points themselves. -/
def insertChecks (points : List RawTimeseriesPoint) : Option String :=
  if points.isEmpty then some "raw batch must not be empty"
  else if points.any fun point => point.sequenceId.isEmpty then
    some "sequence_id must not be empty"
  else
    (groupIds points).findSome? fun sequenceId =>
      checkGroup sequenceId (incomingFor sequenceId points)

/-- `BoundGroup`: a value in the column of its kind, the others null. -/
def boundColumns : TimeseriesValue → ValueColumns
  | .double value => { dValue := some value }
  | .int64 value => { iValue := some value }
  | .bool value => { bValue := some value }
  | .string value => { sValue := some value }

/-- `tag_value_type`: the loop over the points leaves the kind of the last one. -/
def tagValueType (points : List RawTimeseriesPoint) : Int :=
  points.foldl (fun _ point => (valueIndex point.value : Int)) 0

/-- `INSERT INTO ? USING stable TAGS(?,?) VALUES (?,?,?,?,?)` for one group: the tags
    are used if the table does not exist yet, a row replaces the one of its time. -/
def writeGroup (baseName : String) (projectId : ProjectId) (points : List RawTimeseriesPoint)
    (database : Database) (sequenceId : SequenceId) : Database :=
  let group := incomingFor sequenceId points
  let child := (database.find (tableName projectId sequenceId)).getD
    { stable := projectStableName baseName projectId
      sequenceIdTag := sequenceId
      valueTypeTag := tagValueType group
      rows := KeyedTable.empty }
  put (tableName projectId sequenceId)
    { child with
      rows := group.foldl (fun rows point => put point.time (boundColumns point.value) rows)
        child.rows }
    database

/-- The points of a batch whose sequence and time occur once, counted. -/
def uniquePointCount (points : List RawTimeseriesPoint) : Nat :=
  (points.map fun point => (point.sequenceId, point.time)).dedup.length

/-- What an insert reports when the database has taken fewer rows. -/
def affectedRowsMessage (points : List RawTimeseriesPoint) (connectionIndex affectedRows : Nat) :
    String :=
  let duplicates := points.length - uniquePointCount points
  "TDengine inserted an unexpected number of rows: expected=" ++ toString points.length ++
    ", affected=" ++ toString affectedRows ++
    ", unique_points=" ++ toString (uniquePointCount points) ++
    ", duplicate_points=" ++ toString duplicates ++
    ", sequences=" ++ toString (groupIds points).length ++
    ", write_connection=" ++ toString connectionIndex ++
    (if duplicates ≠ 0 then
      "; duplicate (sequence_id,timestamp) keys may have been upserted by TDengine"
    else "; no duplicate keys were found inside this batch")

/-- A failure of the database. -/
def internalError (message : String) : OperationResult :=
  { code := .internalError, message := message }

/-- `insertRawOnConnection` on an open connection of a database that executes the
    statement and reports `affectedRows`. -/
def insertRawOnConnection (baseName : String) (projectId : ProjectId)
    (connectionIndex affectedRows : Nat) (batch : TimeseriesBatch) (database : Database) :
    Database × OperationResult :=
  if batch.points.isEmpty then (database, invalidArgument "raw batch must not be empty")
  else if projectId.isEmpty then (database, invalidArgument "project_id must not be empty")
  else
    match insertChecks batch.points with
    | some error => (database, invalidArgument error)
    | none =>
        let database := (groupIds batch.points).foldl
          (writeGroup baseName projectId batch.points) database
        if affectedRows ≠ batch.points.length then
          (database, internalError (affectedRowsMessage batch.points connectionIndex affectedRows))
        else (database, okResult batch.points.length "raw batch inserted")

/-! ## Querying -/

/-- A row of a result, with the tags of its table. -/
structure ResultRow where
  time : Timestamp
  sequenceId : SequenceId
  valueType : Int
  columns : ValueColumns
  deriving DecidableEq

/-- The rows of one child table in `[start, end)`. -/
def childRows (start finish : Timestamp) (child : ChildTable) : List ResultRow :=
  (child.rows.keys.filter fun time => decide (start ≤ time ∧ time < finish)).filterMap fun time =>
    (child.rows.find time).map fun columns =>
      { time := time
        sequenceId := child.sequenceIdTag
        valueType := child.valueTypeTag
        columns := columns }

/-- `WHERE sequence_id IN (…) AND ts >= start AND ts < end`, for one child table. -/
def tableRows (stable : String) (ids : List SequenceId) (start finish : Timestamp) :
    Option ChildTable → List ResultRow
  | none => []
  | some child =>
      if child.stable = stable ∧ child.sequenceIdTag ∈ ids then childRows start finish child else []

/-- `FROM stable`: the child tables of a stable. -/
def selectRows (stable : String) (ids : List SequenceId) (start finish : Timestamp)
    (database : Database) : List ResultRow :=
  database.keys.flatMap fun name => tableRows stable ids start finish (database.find name)

/-- The one kind the hints give to every requested sequence, if there is one. -/
def typedKindFrom (kinds : Table SequenceId TimeseriesValueKind) :
    List SequenceId → Option TimeseriesValueKind → Option TimeseriesValueKind
  | [], typedKind => typedKind
  | sequenceId :: rest, typedKind =>
      match kinds.find sequenceId with
      | none => none
      | some kind =>
          if kind = .unknown then none
          else
            match typedKind with
            | none => typedKindFrom kinds rest (some kind)
            | some first => if first ≠ kind then none else typedKindFrom kinds rest (some first)

/-- The one kind of all requested sequences, if there is one. -/
def typedKind (ids : List SequenceId) (valueKinds : Option (Table SequenceId TimeseriesValueKind)) :
    Option TimeseriesValueKind :=
  valueKinds.bind fun kinds => typedKindFrom kinds ids none

/-- The column of a kind, decoded. -/
def columnValue (columns : ValueColumns) : TimeseriesValueKind → Option TimeseriesValue
  | .double => columns.dValue.map .double
  | .int64 => columns.iValue.map .int64
  | .bool => columns.bValue.map .bool
  | .string => columns.sValue.map .string
  | .unknown => none

/-- The kind of a type tag. -/
def kindOfType (type : Int) : TimeseriesValueKind :=
  if type = 0 then .double
  else if type = 1 then .int64
  else if type = 2 then .bool
  else if type = 3 then .string
  else .unknown

/-- A row as a point. -/
def pointOf (projectId : ProjectId) (row : ResultRow) (value : TimeseriesValue) :
    RawTimeseriesPoint :=
  { time := row.time, sequenceId := row.sequenceId, value := value, projectId := projectId }

/-- A row of the typed projection; `none` is a mismatch. -/
def decodeTyped (projectId : ProjectId) (kind : TimeseriesValueKind) (row : ResultRow) :
    Option RawTimeseriesPoint :=
  if row.valueType ≠ valueTypeCode kind then none
  else (columnValue row.columns kind).map (pointOf projectId row)

/-- A row of the generic projection. -/
def decodeGeneric (projectId : ProjectId) (row : ResultRow) : Option RawTimeseriesPoint :=
  (columnValue row.columns (kindOfType row.valueType)).map (pointOf projectId row)

/-- The fetch loops: a mismatch in the typed projection starts over with the generic
    one.  `none` is the error about an invalid typed value. -/
def fetchPoints (projectId : ProjectId) (kind : Option TimeseriesValueKind)
    (arrange : Bool → List ResultRow → List ResultRow) (rows : List ResultRow) :
    Option (List RawTimeseriesPoint) :=
  (kind.bind fun kind => (arrange true rows).mapM (decodeTyped projectId kind)).or
    ((arrange false rows).mapM (decodeGeneric projectId))

/-- `time_ordered`. -/
def timeOrdered : List RawTimeseriesPoint → Bool
  | [] => true
  | [_] => true
  | first :: second :: rest => decide (first.time ≤ second.time) && timeOrdered (second :: rest)

/-- The position of a requested sequence. -/
def requestedOrder (ids : List SequenceId) (point : RawTimeseriesPoint) : Nat :=
  ids.idxOf point.sequenceId

/-- The loop over runs of equal times, each sorted by requested order. -/
def sortEqualTimes (ids : List SequenceId) : List RawTimeseriesPoint → List RawTimeseriesPoint
  | [] => []
  | first :: rest =>
      ((first :: rest).takeWhile fun point => decide (point.time = first.time)).insertionSort
          (fun left right => requestedOrder ids left ≤ requestedOrder ids right) ++
        sortEqualTimes ids (rest.dropWhile fun point => decide (point.time = first.time))
  termination_by points => points.length
  decreasing_by
    have hle := (List.dropWhile_sublist (fun point : RawTimeseriesPoint =>
      decide (point.time = first.time)) (l := rest)).length_le
    simp only [List.length_cons]
    omega

/-- Time first, then requested order. -/
def timeThenRequested (ids : List SequenceId) (left right : RawTimeseriesPoint) : Prop :=
  left.time < right.time ∨
    left.time = right.time ∧ requestedOrder ids left ≤ requestedOrder ids right

instance (ids : List SequenceId) (left right : RawTimeseriesPoint) :
    Decidable (timeThenRequested ids left right) :=
  inferInstanceAs (Decidable (_ ∨ _ ∧ _))

/-- The order of a raw answer. -/
def orderPoints (ids : List SequenceId) (points : List RawTimeseriesPoint) :
    List RawTimeseriesPoint :=
  if timeOrdered points then sortEqualTimes ids points
  else points.insertionSort (timeThenRequested ids)

/-- The end of `queryRaw`, with the rows decoded or not. -/
def finishQuery (ids : List SequenceId) (out : TimeseriesBatch) :
    Option (List RawTimeseriesPoint) → TimeseriesBatch × OperationResult
  | none => (out, internalError "query raw data returned an invalid typed value")
  | some points =>
      ({ out with points := orderPoints ids points }, okResult points.length "raw query completed")

/-- `queryRaw` without granularity, on an open connection; the batch is the output
    parameter. -/
def queryRaw (baseName : String) (projectId : ProjectId) (ids : List SequenceId)
    (start finish : Timestamp) (valueKinds : Option (Table SequenceId TimeseriesValueKind))
    (arrange : Bool → List ResultRow → List ResultRow) (database : Database)
    (out : TimeseriesBatch) : TimeseriesBatch × OperationResult :=
  let out := { out with projectId := projectId }
  if ids.isEmpty then (out, invalidArgument "sequence_ids must not be empty")
  else if finish < start then (out, invalidArgument "query start must not be after end")
  else if ids.any fun sequenceId => sequenceId.isEmpty then
    (out, invalidArgument "sequence_id must not be empty")
  else if projectId.isEmpty then (out, invalidArgument "project_id must not be empty")
  else if start = finish then ({ out with points := [] }, okResult 0 "query returned no rows")
  else
    match readSequenceList (cString (sequenceList ids)) with
    | none => (out, internalError "query raw data: syntax error")
    | some wanted =>
        finishQuery ids out (fetchPoints projectId (typedKind ids valueKinds) arrange
          (selectRows (projectStableName baseName projectId) wanted start finish database))

end TaosClient
