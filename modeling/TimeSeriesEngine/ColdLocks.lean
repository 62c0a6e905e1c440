import TimeSeriesEngine.Library.NestedLocks
import TimeSeriesEngine.Library.EventLog
import TimeSeriesEngine.SqlText

/-!
# The connections of the cold store

`taos_client.cpp` keeps a pool of write connections with a mutex each, one connection
for queries with its own, and a mutex for the set of the projects whose stable exists.
The calls of any number of threads are scripts here, with every statement that goes to
the database; what the database says to a statement is part of the call.

* `ascending` — mutexes are taken in the order schema, write connections, query;
* `cold_nobody_blocked` — so no thread is blocked for ever.
-/

namespace ColdLocks

open TseTypes TaosClient LockScripts EventLog Transition

/-! ## The client -/

/-- `schema_mutex`, the mutex of a write connection, and `query_mutex`. -/
inductive MutexId where
  | schema
  | connection (index : Nat)
  | query
  deriving DecidableEq

/-- The statements and the selections of a database. -/
inductive Statement where
  | createDatabase
  /-- `taos_select_db`, on a write connection or the one for queries. -/
  | select (connection : Option Nat)
  | createStable (projectId : ProjectId)
  | insert (projectId : ProjectId) (connection : Nat) (batch : TimeseriesBatch)
  | query (projectId : ProjectId) (kind : Option TimeseriesValueKind)
  | overview (projectId : ProjectId)
  | dropDatabase
  deriving DecidableEq

/-- A statement the database has seen, and whether it was carried out. -/
structure Issued where
  statement : Statement
  accepted : Bool
  deriving DecidableEq

/-- What the mutexes protect, and what the database has seen.  A connection that is gone
    is a null pointer. -/
structure ColdStore where
  connected : Nat → Bool := fun _ => true
  queryConnected : Bool := true
  projectSchemas : List ProjectId := []
  issued : List Issued := []

/-- A call of the cold store as the locks it takes and what it does under them. -/
abbrev ColdScript := Script MutexId ColdStore

/-- What the environment sets: whether its configuration was refused, the number of write
    connections, the name in front of the stables, and the hash of a sequence id. -/
structure Pool where
  configError : Bool := false
  size : Nat := 4
  baseName : String := "raw_timeseries_data"
  hash : SequenceId → Nat := fun _ => 0

/-- A statement goes out, and the database accepts it or not. -/
def issue (statement : Statement) (accepted : Bool) (store : ColdStore) : ColdStore :=
  { store with issued := store.issued ++ [⟨statement, accepted⟩] }

/-- `CREATE STABLE` and, once it was carried out, the entry in the set; nobody reads the
    set in between. -/
def createStable (projectId : ProjectId) (accepted : Bool) (store : ColdStore) : ColdStore :=
  if accepted then
    { issue (.createStable projectId) accepted store with
      projectSchemas := projectId :: store.projectSchemas }
  else issue (.createStable projectId) accepted store

/-- A write connection is closed. -/
def closeConnection (index : Nat) (store : ColdStore) : ColdStore :=
  { store with connected := Function.update store.connected index false }

/-- The query connection is closed. -/
def closeQuery (store : ColdStore) : ColdStore := { store with queryConnected := false }

/-- No project is known to have its stable. -/
def clearSchemas (store : ColdStore) : ColdStore := { store with projectSchemas := [] }

/-! ## The calls -/

/-- The loop over the other write connections. -/
def selectConnections (accepts : Statement → Bool) (failed ready : ColdScript) :
    List Nat → ColdScript
  | [] => ready
  | index :: rest =>
      .lock (.connection index) .exclusive (.read fun store =>
        if !store.connected index then .unlock (.connection index) failed
        else
          .write (issue (.select (some index)) (accepts (.select (some index))))
            (.unlock (.connection index)
              (if accepts (.select (some index)) then selectConnections accepts failed ready rest
              else failed)))

/-- The selection on the connection for queries, if there is one. -/
def selectQuery (accepts : Statement → Bool) (leave : Bool → ColdScript) : ColdScript :=
  .lock .query .exclusive (.read fun store =>
    if !store.queryConnected then .unlock .query (leave true)
    else
      .write (issue (.select none) (accepts (.select none)))
        (.unlock .query (leave (accepts (.select none)))))

/-- `ensureSchema`; `rest` is what follows, by whether the schema is ready. -/
def ensureSchema (pool : Pool) (accepts : Statement → Bool) (rest : Bool → ColdScript) :
    ColdScript :=
  let leave (ready : Bool) : ColdScript := .unlock (.connection 0) (rest ready)
  if pool.configError then rest false
  else if pool.size = 0 then rest false
  else
    .lock (.connection 0) .exclusive (.read fun store =>
      if !store.connected 0 then leave false
      else
        .write (issue .createDatabase (accepts .createDatabase))
          (if !accepts .createDatabase then leave false
          else
            .write (issue (.select (some 0)) (accepts (.select (some 0))))
              (if !accepts (.select (some 0)) then leave false
              else
                selectConnections accepts (leave false) (selectQuery accepts leave)
                  (List.range' 1 (pool.size - 1)))))

/-- The stable of a project, under the mutex of the set and that of the first connection. -/
def ensureStable (projectId : ProjectId) (accepts : Statement → Bool)
    (rest : Bool → ColdScript) : ColdScript :=
  let leave (ready : Bool) : ColdScript := .unlock .schema (rest ready)
  .lock .schema .exclusive (.read fun store =>
    if projectId ∈ store.projectSchemas then leave true
    else
      .lock (.connection 0) .exclusive (.read fun store =>
        if !store.connected 0 then .unlock (.connection 0) (leave false)
        else
          .write (createStable projectId (accepts (.createStable projectId)))
            (.unlock (.connection 0) (leave (accepts (.createStable projectId))))))

/-- `ensureProjectSchema`; `rest` goes on with whether the stable is there. -/
def ensureProjectSchema (pool : Pool) (projectId : ProjectId) (accepts : Statement → Bool)
    (rest : Bool → ColdScript) : ColdScript :=
  if projectId.isEmpty then rest false
  else
    ensureSchema pool accepts fun ready =>
      if !ready then rest false
      else if !SqlText.validDatabaseName
          (SqlText.utf8 (TaosClient.projectStableName pool.baseName projectId)) then rest false
      else ensureStable projectId accepts rest

/-- `insertRawOnConnection`. -/
def insertOnConnection (pool : Pool) (projectId : ProjectId) (index : Nat)
    (batch : TimeseriesBatch) (accepts : Statement → Bool) : ColdScript :=
  if batch.points.isEmpty then .done
  else if pool.configError then .done
  else
    ensureProjectSchema pool projectId accepts fun ready =>
      if !ready then .done
      else if (insertChecks batch.points).isSome then .done
      else if pool.size ≤ index then .done
      else
        .lock (.connection index) .exclusive (.read fun store =>
          if !store.connected index then .unlock (.connection index) .done
          else
            .write
              (issue (.insert projectId index batch) (accepts (.insert projectId index batch)))
              (.unlock (.connection index) .done))

/-- The connection a sequence is written on. -/
def connectionFor (pool : Pool) (batch : TimeseriesBatch) : Nat :=
  match batch.points with
  | [] => 0
  | point :: _ => pool.hash point.sequenceId % pool.size

/-- `insertRaw`, which makes the schema ready twice. -/
def insertRaw (pool : Pool) (projectId : ProjectId) (batch : TimeseriesBatch)
    (accepts : Nat → Statement → Bool) : ColdScript :=
  if batch.points.isEmpty then .done
  else
    ensureProjectSchema pool projectId (accepts 0) fun ready =>
      if !ready then .done
      else if pool.size = 0 then .done
      else insertOnConnection pool projectId (connectionFor pool batch) batch (accepts 1)

/-- A statement on the connection for queries, and what follows it. -/
def onQuery (statement : Statement) (accepted : Bool) (rest : ColdScript) : ColdScript :=
  .lock .query .exclusive (.read fun store =>
    if !store.queryConnected then .unlock .query .done
    else .write (issue statement accepted) rest)

/-- `queryRaw`; `mismatch` says whether the typed projection meets a value of another kind
    and is followed by the generic one. -/
def queryRaw (pool : Pool) (projectId : ProjectId) (ids : List SequenceId)
    (start finish : Timestamp) (granularity : Option Int) (kind : Option TimeseriesValueKind)
    (mismatch : Bool) (accepts : Statement → Bool) : ColdScript :=
  if ids.isEmpty then .done
  else if finish < start then .done
  else if ids.any fun sequenceId => sequenceId.isEmpty then .done
  else if pool.configError then .done
  else
    ensureProjectSchema pool projectId accepts fun ready =>
      if !ready then .done
      else if start = finish then .done
      else if granularity.any fun granularity => decide (granularity ≤ 0) then .done
      else
        onQuery (.query projectId kind) (accepts (.query projectId kind))
          (if accepts (.query projectId kind) && kind.isSome && mismatch then
            .write (issue (.query projectId none) (accepts (.query projectId none)))
              (.unlock .query .done)
          else .unlock .query .done)

/-- The range of an overview is open where a bound is not set. -/
def overviewRange (start finish : Option Timestamp) (holds : Timestamp → Timestamp → Bool) :
    Bool :=
  match start, finish with
  | some start, some finish => holds start finish
  | _, _ => false

/-- `queryHistoryOverview`, up to its statement. -/
def queryHistoryOverview (pool : Pool) (projectId : ProjectId) (ids : List SequenceId)
    (start finish : Option Timestamp) (accepts : Statement → Bool) : ColdScript :=
  if overviewRange start finish fun start finish => decide (finish < start) then .done
  else if ids.any fun sequenceId => sequenceId.isEmpty then .done
  else if pool.configError then .done
  else
    ensureProjectSchema pool projectId accepts fun ready =>
      if !ready then .done
      else if overviewRange start finish fun start finish => decide (start = finish) then .done
      else
        onQuery (.overview projectId) (accepts (.overview projectId)) (.unlock .query .done)

/-- The loop that closes the write connections. -/
def closeConnections (rest : ColdScript) : List Nat → ColdScript
  | [] => rest
  | index :: others =>
      .lock (.connection index) .exclusive
        (.write (closeConnection index)
          (.unlock (.connection index) (closeConnections rest others)))

/-- `dropDatabaseForTesting`; the statement goes out on a connection of its own, if the
    database can be reached. -/
def dropDatabaseForTesting (pool : Pool) (reachable : Bool) (accepts : Statement → Bool) :
    ColdScript :=
  if pool.configError then .done
  else if pool.size = 0 then .done
  else
    closeConnections
      (.lock .query .exclusive
        (.write closeQuery
          (.unlock .query
            (if !reachable then .done
            else
              .write (issue .dropDatabase (accepts .dropDatabase))
                (if !accepts .dropDatabase then .done
                else .lock .schema .exclusive (.write clearSchemas (.unlock .schema .done)))))))
      (List.range pool.size)

/-- The calls of the cold store. -/
inductive Call where
  | ensureSchema
  | ensureProjectSchema (projectId : ProjectId)
  | insertRaw (projectId : ProjectId) (batch : TimeseriesBatch)
  | insertRawOnConnection (projectId : ProjectId) (index : Nat) (batch : TimeseriesBatch)
  | queryRaw (projectId : ProjectId) (ids : List SequenceId) (start finish : Timestamp)
      (granularity : Option Int) (kind : Option TimeseriesValueKind) (mismatch : Bool)
  | queryHistoryOverview (projectId : ProjectId) (ids : List SequenceId)
      (start finish : Option Timestamp)
  | dropDatabaseForTesting (reachable : Bool)

/-- A call, with what the database says to its statements. -/
structure Program where
  call : Call
  accepts : Nat → Statement → Bool

/-- The script of a call. -/
def Program.script (pool : Pool) (program : Program) : ColdScript :=
  match program.call with
  | .ensureSchema => ensureSchema pool (program.accepts 0) fun _ => .done
  | .ensureProjectSchema projectId =>
      ensureProjectSchema pool projectId (program.accepts 0) fun _ => .done
  | .insertRaw projectId batch => insertRaw pool projectId batch program.accepts
  | .insertRawOnConnection projectId index batch =>
      insertOnConnection pool projectId index batch (program.accepts 0)
  | .queryRaw projectId ids start finish granularity kind mismatch =>
      queryRaw pool projectId ids start finish granularity kind mismatch (program.accepts 0)
  | .queryHistoryOverview projectId ids start finish =>
      queryHistoryOverview pool projectId ids start finish (program.accepts 0)
  | .dropDatabaseForTesting reachable =>
      dropDatabaseForTesting pool reachable (program.accepts 0)

/-! ## The order of the mutexes -/

/-- Schema, the write connections by their index, query. -/
def rank (pool : Pool) : MutexId → Nat
  | .schema => 0
  | .connection index => index + 1
  | .query => pool.size + 1

section Ascent

variable {pool : Pool} {accepts : Statement → Bool}

/-- A mutex that is taken while nothing is held. -/
theorem lock_ascending {mutex : MutexId} {rest : ColdScript}
    (hrest : rest.Ascending (rank pool) [mutex]) :
    (Script.lock mutex .exclusive rest).Ascending (rank pool) [] :=
  ascending_lock hrest fun _ hheld => absurd hheld List.not_mem_nil

/-- A mutex that is taken while another is held. -/
theorem lock_second_ascending {mutex held : MutexId} {rest : ColdScript}
    (hrest : rest.Ascending (rank pool) [mutex, held]) (habove : rank pool held < rank pool mutex) :
    (Script.lock mutex .exclusive rest).Ascending (rank pool) [held] := by
  refine ascending_lock hrest fun other hother => ?_
  rw [List.mem_singleton.mp hother]
  exact habove

/-- Selecting the database on the other connections goes up in rank. -/
theorem selectConnections_ascending {failed ready : ColdScript} {indices : List Nat}
    (hfailed : failed.Ascending (rank pool) [.connection 0])
    (hready : ready.Ascending (rank pool) [.connection 0])
    (habove : ∀ index ∈ indices, 0 < index) :
    (selectConnections accepts failed ready indices).Ascending (rank pool) [.connection 0] := by
  induction indices with
  | nil => exact hready
  | cons index rest ih =>
      have hpos := habove index List.mem_cons_self
      have hrest := ih fun other hother => habove other (List.mem_cons_of_mem _ hother)
      refine lock_second_ascending (ascending_read fun store => ?_) (Nat.succ_lt_succ hpos)
      refine ascending_ite (ascending_unlock hfailed) fun _ => ascending_write ?_
      exact ascending_unlock (ascending_ite hrest fun _ => hfailed)

/-- Selecting it on the query connection goes up in rank. -/
theorem selectQuery_ascending {leave : Bool → ColdScript} (hsize : pool.size ≠ 0)
    (hleave : ∀ ready, (leave ready).Ascending (rank pool) [.connection 0]) :
    (selectQuery accepts leave).Ascending (rank pool) [.connection 0] := by
  refine lock_second_ascending (ascending_read fun store => ?_) ?_
  · exact ascending_ite (ascending_unlock (hleave true)) fun _ =>
      ascending_write (ascending_unlock (hleave _))
  · show 0 + 1 < pool.size + 1
    omega

/-- `ensureSchema` goes up in rank. -/
theorem ensureSchema_ascending {rest : Bool → ColdScript}
    (hrest : ∀ ready, (rest ready).Ascending (rank pool) []) :
    (ensureSchema pool accepts rest).Ascending (rank pool) [] := by
  have hleave : ∀ ready, (Script.unlock (.connection 0) (rest ready)).Ascending (rank pool)
      [.connection 0] := fun ready => ascending_unlock (hrest ready)
  refine ascending_ite (hrest false) fun _ => ascending_ite (hrest false) fun hsize => ?_
  refine lock_ascending (ascending_read fun store => ?_)
  refine ascending_ite (hleave false) fun _ => ascending_write ?_
  refine ascending_ite (hleave false) fun _ => ascending_write ?_
  refine ascending_ite (hleave false) fun _ => ?_
  refine selectConnections_ascending (hleave false) (selectQuery_ascending hsize hleave) ?_
  exact fun index hindex => (List.mem_range'_1.mp hindex).1

/-- `ensureStable` goes up in rank. -/
theorem ensureStable_ascending {projectId : ProjectId} {rest : Bool → ColdScript}
    (hrest : ∀ ready, (rest ready).Ascending (rank pool) []) :
    (ensureStable projectId accepts rest).Ascending (rank pool) [] := by
  have hleave : ∀ ready, (Script.unlock .schema (rest ready)).Ascending (rank pool) [.schema] :=
    fun ready => ascending_unlock (hrest ready)
  refine lock_ascending (ascending_read fun store => ?_)
  refine ascending_ite (hleave true) fun _ => ?_
  refine lock_second_ascending (ascending_read fun store => ?_) Nat.zero_lt_one
  refine ascending_ite (ascending_unlock (hleave false)) fun _ => ascending_write ?_
  exact ascending_unlock (hleave _)

theorem ensureProjectSchema_ascending {projectId : ProjectId} {rest : Bool → ColdScript}
    (hrest : ∀ ready, (rest ready).Ascending (rank pool) []) :
    (ensureProjectSchema pool projectId accepts rest).Ascending (rank pool) [] := by
  refine ascending_ite (hrest false) fun _ => ensureSchema_ascending fun ready => ?_
  refine ascending_ite (hrest false) fun _ => ascending_ite (hrest false) fun _ => ?_
  exact ensureStable_ascending hrest

/-- An insert goes up in rank. -/
theorem insertOnConnection_ascending (projectId : ProjectId) (index : Nat)
    (batch : TimeseriesBatch) :
    (insertOnConnection pool projectId index batch accepts).Ascending (rank pool) [] := by
  refine ascending_guard fun _ => ascending_guard fun _ =>
    ensureProjectSchema_ascending fun ready => ?_
  refine ascending_guard fun _ => ascending_guard fun _ => ascending_guard fun _ => ?_
  refine lock_ascending (ascending_read fun store => ?_)
  refine ascending_ite (ascending_unlock ascending_done) fun _ => ?_
  exact ascending_write (ascending_unlock ascending_done)

theorem onQuery_ascending {statement : Statement} {accepted : Bool} {rest : ColdScript}
    (hrest : rest.Ascending (rank pool) [.query]) :
    (onQuery statement accepted rest).Ascending (rank pool) [] :=
  lock_ascending (ascending_read fun _ =>
    ascending_ite (ascending_unlock ascending_done) fun _ => ascending_write hrest)

theorem closeConnections_ascending {rest : ColdScript} (hrest : rest.Ascending (rank pool) [])
    (indices : List Nat) : (closeConnections rest indices).Ascending (rank pool) [] := by
  induction indices with
  | nil => exact hrest
  | cons index others ih => exact lock_ascending (ascending_write (ascending_unlock ih))

/-- **Mutexes are taken in their order**, in every call. -/
theorem ascending (pool : Pool) (program : Program) :
    (program.script pool).Ascending (rank pool) [] := by
  obtain ⟨call, accepts⟩ := program
  cases call with
  | ensureSchema => exact ensureSchema_ascending fun _ => ascending_done
  | ensureProjectSchema projectId => exact ensureProjectSchema_ascending fun _ => ascending_done
  | insertRaw projectId batch =>
      refine ascending_guard fun _ => ensureProjectSchema_ascending fun ready => ?_
      refine ascending_guard fun _ => ascending_guard fun _ => ?_
      exact insertOnConnection_ascending projectId _ batch
  | insertRawOnConnection projectId index batch =>
      exact insertOnConnection_ascending projectId index batch
  | queryRaw projectId ids start finish granularity kind mismatch =>
      refine ascending_guard fun _ => ascending_guard fun _ => ascending_guard fun _ =>
        ascending_guard fun _ => ensureProjectSchema_ascending fun ready => ?_
      refine ascending_guard fun _ => ascending_guard fun _ => ascending_guard fun _ => ?_
      refine onQuery_ascending (ascending_ite ?_ fun _ => ascending_unlock ascending_done)
      exact ascending_write (ascending_unlock ascending_done)
  | queryHistoryOverview projectId ids start finish =>
      refine ascending_guard fun _ => ascending_guard fun _ => ascending_guard fun _ =>
        ensureProjectSchema_ascending fun ready => ?_
      refine ascending_guard fun _ => ascending_guard fun _ => ?_
      exact onQuery_ascending (ascending_unlock ascending_done)
  | dropDatabaseForTesting reachable =>
      refine ascending_guard fun _ => ascending_guard fun _ =>
        closeConnections_ascending (lock_ascending (ascending_write (ascending_unlock ?_))) _
      refine ascending_guard fun _ => ascending_write (ascending_guard fun _ => ?_)
      exact lock_ascending (ascending_write (ascending_unlock ascending_done))

end Ascent

/-! ## Nobody is blocked -/

/-- `n` threads call the client. -/
abbrev ColdState (n : Nat) := State MutexId ColdStore Program n 0

/-- A thread starts a call, or acts. -/
abbrev ColdStep (n : Nat) := Step Program n 0

/-- To whom a free mutex is given. -/
abbrev AdmissionPolicy (n : Nat) := Policy MutexId ColdStore Program n 0

/-- One step of the threads. -/
def coldStep {n : Nat} (pool : Pool) : ColdState n → ColdStep n → ColdState n :=
  step (Program.script pool)

/-- **The locks of the cold store.**  Under every admission policy that gives a free mutex
    to somebody, in every run of any calls: no thread asks for a mutex it has, some thread
    can act while anything is left to do, and the calls that run come to an end. -/
theorem cold_nobody_blocked {n : Nat} (pool : Pool) {admits : AdmissionPolicy n}
    (hlawful : Lawful admits) (store : ColdStore) (steps : List (ColdStep n)) :
    let state := run (coldStep pool) { data := store } steps
    (∀ thread, ¬ RequestsHeld state thread) ∧
      (¬ Finished state → ∃ thread, CanAct admits state thread) ∧
      ¬ Endless (Program.script pool) admits state := by
  have hnested : Nested (rank pool) (run (coldStep pool) ({ data := store } : ColdState n) steps) :=
    nested_run (ascending pool) store steps
  exact ⟨hnested.not_requestsHeld, fun hleft => hnested.progress hlawful hleft,
    not_endless _ admits _⟩

/-- The thread that makes the schema. -/
def maker : Fin 2 := ⟨0, Nat.two_pos⟩

/-- The thread that reads. -/
def reader : Fin 2 := ⟨1, Nat.one_lt_two⟩

/-- One thread makes the schema of a project, another one reads from it. -/
def sampleSteps : List (ColdStep 2) :=
  [.start maker ⟨.ensureProjectSchema "p", fun _ _ => true⟩,
    .start reader ⟨.queryRaw "p" ["s"] 0 10 none none false, fun _ _ => true⟩] ++
    List.replicate 20 (.act (.inl maker)) ++ List.replicate 20 (.act (.inl reader))

/-- In the middle of such a run. -/
theorem cold_nobody_blocked_sample :
    let state := run (coldStep { size := 1 }) ({ data := {} } : ColdState 2) (sampleSteps.take 30)
    (∀ thread, ¬ RequestsHeld state thread) ∧
      (¬ Finished state → ∃ thread, CanAct writerFirst state thread) ∧
      ¬ Endless (Program.script { size := 1 }) writerFirst state :=
  cold_nobody_blocked { size := 1 } writerFirst_lawful {} (sampleSteps.take 30)

end ColdLocks
