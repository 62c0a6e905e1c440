import TimeSeriesEngine.Library.InOrder
import TimeSeriesEngine.ColdRoundTrip
import TimeSeriesEngine.ExecutorRouting

/-!
# The cold store under the ingest executor

Every shard of the executor has a worker of its own, and the insert of a sub-batch writes
its sequences one after another, in any order, while the other shards write theirs.  Here
the database runs together with the executor: a step is a step of the executor or one group
of an insert that is under way.

* `step` — a call of the cold callback has ended only when its groups are written;
* `cold_writes_serial` — each table is always that of the first so many tasks, and when the
  cold lanes are done the database is the one that one insert after another, in the order
  of admission, would leave;
* `cold_reads_consistent` — two reads in a row see the tasks of a sequence in that order,
  the later one no fewer of them.
-/

namespace ColdWriteOrder

open TseTypes KeyedTable HotWindow WindowUpdate TaosClient IngestExecutor ExecutorOwnership
open ExecutorCounts ExecutorHotOrder ExecutorRouting SeqContent InOrder Transition

/-! ## The system -/

/-- The executor, the database, and what the inserts under way have still to write. -/
structure ColdStore where
  executor : Executor := {}
  database : Database := KeyedTable.empty
  /-- The groups the insert of a shard has still to write. -/
  unwritten : Nat → List SequenceId := fun _ => []

/-- A step of the executor, or one group of an insert. -/
inductive Action where
  | executor (action : IngestExecutor.Action)
  /-- The database takes one group of the insert of a shard. -/
  | write (index : Nat) (sequenceId : SequenceId)

/-- The insert the cold callback of a task makes on a shard.  The count of rows the
    database reports decides about the result only. -/
def insertOf (s : Executor) (t index : Nat) : InsertCall where
  projectId := (s.task t).data.projectId
  connectionIndex := index
  affectedRows := ((s.task t).coldBatches index).points.length
  batch := (s.task t).coldBatches index

/-- The checks in front of the statement. -/
def lands (call : InsertCall) : Bool :=
  !call.projectId.isEmpty && (insertChecks call.batch.points).isNone

section Model

variable (config : Config) (baseName : String) (reaches : Nat → Nat → Bool)

/-- What an insert writes: nothing where its checks fail, or where the connection or the
    schema does, so that it does not reach the database. -/
def groupsOf (s : Executor) (t index : Nat) : List SequenceId :=
  if reaches t index && lands (insertOf s t index) then
    groupIds ((s.task t).coldBatches index).points
  else []

/-- The database takes groups only of an insert that runs. -/
def step (s : ColdStore) : Action → ColdStore
  | .write index sequenceId =>
      if sequenceId ∈ s.unwritten index then
        match s.executor.holding (.cold index) with
        | none => s
        | some t =>
            { s with
              database :=
                writeGroup baseName (s.executor.task t).data.projectId
                  ((s.executor.task t).coldBatches index).points s.database sequenceId
              unwritten :=
                Function.update s.unwritten index ((s.unwritten index).erase sequenceId) }
      else s
  | .executor (.work (.cold index) callback) =>
      let next := perform config s.executor (.work (.cold index) callback)
      match s.executor.holding (.cold index) with
      | none => s
      | some t =>
          match s.executor.stage t (.cold index) with
          | .waiting [] =>
              { s with
                executor := next
                unwritten :=
                  Function.update s.unwritten index (groupsOf reaches s.executor t index) }
          | .calling => if s.unwritten index = [] then { s with executor := next } else s
          | _ => { s with executor := next }
  | .executor action => { s with executor := perform config s.executor action }

/-- The state after an interleaving. -/
def reached (actions : List Action) : ColdStore := run (step config baseName reaches) {} actions

/-- The inserts of a task that write anything, shard by shard. -/
def insertsOf (s : Executor) (t : Nat) : List InsertCall :=
  ((List.range config.coldWorkerCount).filter fun index =>
    reaches t index && lands (insertOf s t index)).map (insertOf s t)

/-- One insert after another, in the order of admission. -/
def serialHistory (s : Executor) (n : Nat) : List InsertCall :=
  (List.range n).flatMap (insertsOf config reaches s)

/-- The sequences of the admitted tasks. -/
def taskPairs (s : Executor) : List (ProjectId × SequenceId) :=
  (List.range s.tasks.length).flatMap fun t =>
    (s.task t).data.points.map fun point => ((s.task t).data.projectId, point.sequenceId)

/-- What a task writes for a sequence. -/
def work (s : Executor) (p : ProjectId) (id : SequenceId) (t : Nat) : List RawTimeseriesPoint :=
  writes (insertsOf config reaches s t) p id

end Model

variable {config : Config} {baseName : String} {reaches : Nat → Nat → Bool}

theorem writes_serialHistory (s : Executor) (p : ProjectId) (id : SequenceId) (n : Nat) :
    writes (serialHistory config reaches s n) p id =
      (List.range n).flatMap (work config reaches s p id) := by
  rw [writes, serialHistory, List.flatMap_assoc]
  rfl

theorem mem_taskPairs {s : Executor} {pair : ProjectId × SequenceId} :
    pair ∈ taskPairs s ↔ ∃ t < s.tasks.length, ∃ point ∈ (s.task t).data.points,
      (s.task t).data.projectId = pair.1 ∧ point.sequenceId = pair.2 := by
  simp only [taskPairs, List.mem_flatMap, List.mem_range, List.mem_map, Prod.ext_iff]

/-- The groups of a task on a shard that reach the database. -/
theorem mem_groupsOf {s : Executor} {t index : Nat} {id : SequenceId} :
    id ∈ groupsOf reaches s t index ↔ (reaches t index && lands (insertOf s t index)) = true ∧
      ∃ point ∈ ((s.task t).coldBatches index).points, point.sequenceId = id := by
  rw [groupsOf]
  split
  · rename_i h
    rw [mem_groupIds, and_iff_right h]
  · rename_i h
    exact iff_of_false List.not_mem_nil fun hmem => h hmem.1

/-! ## A sequence has one shard -/

section Routing

variable {s : Executor} (hrouted : Routed config s)

include hrouted in
/-- The groups of a task are routed to their shard. -/
theorem route_of_group {t index : Nat} (ht : t < s.tasks.length) {id : SequenceId}
    (hid : id ∈ groupsOf reaches s t index) :
    s.sequenceWriters.find (sequenceKey (s.task t).data.projectId id) = some index ∧
      index < config.coldWorkerCount := by
  obtain ⟨writer, hfollows⟩ := hrouted.follows ht
  obtain ⟨-, point, hpoint, rfl⟩ := mem_groupsOf.mp hid
  obtain ⟨hdata, rfl⟩ := hfollows.mem.mp hpoint
  exact ⟨hfollows.route point hdata, hfollows.shard point hdata⟩

include hrouted in
/-- What a task writes for a sequence is a group of one insert. -/
theorem work_of_group {t index : Nat} (ht : t < s.tasks.length) {id : SequenceId}
    (hid : id ∈ groupsOf reaches s t index) :
    work config reaches s (s.task t).data.projectId id t =
      incomingFor id ((s.task t).coldBatches index).points := by
  obtain ⟨hroute, hindex⟩ := route_of_group hrouted ht hid
  obtain ⟨hlands, -⟩ := mem_groupsOf.mp hid
  rw [work, insertsOf, writes, List.flatMap_map]
  refine (flatMap_single ?_ (x := index) ?_ ?_).trans ?_
  · exact List.nodup_range.filter _
  · exact List.mem_filter.mpr ⟨List.mem_range.mpr hindex, hlands⟩
  · intro other hother hne
    have hnone : incomingFor id ((s.task t).coldBatches other).points = [] := by
      by_contra hsome
      obtain ⟨point, hpoint⟩ := List.exists_mem_of_ne_nil _ hsome
      have hgroup : id ∈ groupsOf reaches s t other :=
        mem_groupsOf.mpr ⟨(List.mem_filter.mp hother).2, point, mem_incomingFor.mp hpoint⟩
      exact hne (Option.some.inj ((route_of_group hrouted ht hgroup).1.symm.trans hroute))
    show (if _ then incomingFor id ((s.task t).coldBatches other).points else []) = []
    rw [hnone, ite_self]
  · exact if_pos rfl

omit hrouted in
/-- A task that writes for a sequence has a group of it. -/
theorem group_of_work {p : ProjectId} {id : SequenceId} {t : Nat}
    (h : work config reaches s p id t ≠ []) :
    (s.task t).data.projectId = p ∧ ∃ index, id ∈ groupsOf reaches s t index := by
  obtain ⟨point, hpoint⟩ := List.exists_mem_of_ne_nil _ h
  rw [work, writes, List.mem_flatMap] at hpoint
  obtain ⟨call, hcall, hpoint⟩ := hpoint
  obtain ⟨index, hindex, rfl⟩ := List.mem_map.mp hcall
  rw [writesOf] at hpoint
  split at hpoint
  · rename_i hproject
    exact ⟨hproject, index,
      mem_groupsOf.mpr ⟨(List.mem_filter.mp hindex).2, point, mem_incomingFor.mp hpoint⟩⟩
  · cases hpoint

end Routing

/-! ## Steps of the executor, seen at one lane -/

/-- A step that is not one of the lane's workers. -/
structure LaneFrame (lane : Lane) (s s' : Executor) : Prop where
  tasks : s'.tasks = s.tasks ∨ ∃ task, s'.tasks = s.tasks ++ [task]
  stages : ∀ t, s'.stage t lane = s.stage t lane ∨
    s.stage t lane = .queued ∧ ∃ waited, s'.stage t lane = .waiting waited
  holding : ∀ w t, w.lane = lane → s.holding w = some t → s'.holding w = some t

theorem LaneFrame.same {lane : Lane} {s s' : Executor} (htasks : s'.tasks = s.tasks)
    (hstage : s'.stage = s.stage) (hholding : s'.holding = s.holding) : LaneFrame lane s s' :=
  ⟨Or.inl htasks, fun _ => Or.inl (by rw [hstage]), fun _ _ _ h => by rw [hholding]; exact h⟩

section Steps

variable {s : Executor}

/-- Taking a task off the queue does not touch what a lane has done. -/
theorem laneFrame_pop (howned : Owned config s) (lane : Lane) (w : Worker) :
    LaneFrame lane s (perform config s (.pop w)) := by
  rw [perform]
  cases hstep : IngestExecutor.step config s (.pop w) with
  | none => exact .same rfl rfl rfl
  | some s' =>
      obtain ⟨t, rest, -, hfree, -, hqueue, rfl⟩ := step_pop hstep
      refine ⟨Or.inl (popQueue_frame s w.lane).1, fun a => ?_, fun other a _ hheld => ?_⟩
      · show setStage s.stage t w.lane (popped s t w.lane) a lane = _ ∨ _
        by_cases hself : a = t ∧ lane = w.lane
        · obtain ⟨rfl, rfl⟩ := hself
          have hqueued := ((howned.queued w.lane a).mp (hqueue ▸ List.mem_cons_self)).2
          refine Or.inr ⟨hqueued, ?_⟩
          show ∃ waited, setStage s.stage a w.lane (popped s a w.lane) a w.lane = .waiting waited
          rw [setStage_self]
          cases w.lane with
          | hot => exact ⟨_, rfl⟩
          | cold index => exact ⟨[], rfl⟩
        · exact Or.inl (setStage_other hself _)
      · have hne : other ≠ w := by
          rintro rfl
          rw [hfree] at hheld
          cases hheld
        exact (Function.update_of_ne hne _ _).trans hheld

/-- A worker of another lane does not touch a lane. -/
theorem laneFrame_work (howned : Owned config s) {lane : Lane} {w : Worker} (h : w.lane ≠ lane)
    (callback : Callback) : LaneFrame lane s (perform config s (.work w callback)) := by
  rw [perform]
  cases hstep : IngestExecutor.step config s (.work w callback) with
  | none => exact .same rfl rfl rfl
  | some s' =>
      obtain ⟨t, effect, -, -, rfl⟩ := step_work howned.fits hstep
      refine ⟨Or.inl rfl, fun a => Or.inl ?_, fun other a hlane hheld => ?_⟩
      · have hother : ¬ (a = t ∧ lane = w.lane) := fun hsame => h hsame.2.symm
        exact setStage_other hother effect.stage
      · have hne : other ≠ w := fun hsame => h (hsame ▸ hlane)
        exact (applyEffect_holding w t effect other a).mpr ⟨hheld, fun hover => hne hover.2⟩

/-- What the workers of a lane do not do. -/
theorem laneFrame_perform (howned : Owned config s) (lane : Lane)
    {action : IngestExecutor.Action}
    (h : ∀ w callback, w.lane = lane → action ≠ .work w callback) :
    LaneFrame lane s (perform config s action) := by
  cases action with
  | pop w => exact laneFrame_pop howned lane w
  | work w callback => exact laneFrame_work howned (fun hlane => h w callback hlane rfl) callback
  | stop => exact .same rfl rfl rfl
  | exit w =>
      simp only [perform, IngestExecutor.step]
      split <;> exact .same rfl rfl rfl
  | route call =>
      simp only [perform, IngestExecutor.step]
      split
      · exact .same rfl rfl rfl
      · split <;> exact .same rfl rfl rfl
  | submit call request =>
      simp only [perform, IngestExecutor.step]
      split
      · exact .same rfl rfl rfl
      split
      · exact .same rfl rfl rfl
      · split <;> exact .same rfl rfl rfl
  | admission call =>
      simp only [perform, IngestExecutor.step]
      split
      · exact .same rfl rfl rfl
      split
      · exact .same rfl rfl rfl
      · split
        · exact .same rfl rfl rfl
        · exact ⟨Or.inr ⟨_, rfl⟩, fun _ => Or.inl rfl, fun _ _ _ h => h⟩

/-- A step of a worker. -/
theorem workerStep_cases (howned : Owned config s) (w : Worker) (callback : Callback) :
    perform config s (.work w callback) = s ∨
      ∃ t effect, s.holding w = some t ∧ Moves s t w.lane effect ∧
        perform config s (.work w callback) = applyEffect s w t effect := by
  rw [perform]
  cases hstep : IngestExecutor.step config s (.work w callback) with
  | none => exact Or.inl rfl
  | some s' => exact Or.inr (step_work howned.fits hstep)

theorem applyEffect_keeps {index t : Nat} {effect : Effect} (h : effect.stage ≠ .done) :
    (applyEffect s (.cold index) t effect).holding = s.holding := by
  rw [applyEffect]
  cases hstage : effect.stage <;> first | rfl | exact absurd hstage h

end Steps

/-! ## What a step leaves as it was -/

section Congruence

variable {s s' : Executor} {t : Nat} (htask : s'.task t = s.task t)

include htask

theorem insertOf_congr (index : Nat) : insertOf s' t index = insertOf s t index := by
  rw [insertOf, insertOf, htask]

theorem groupsOf_congr (index : Nat) :
    groupsOf reaches s' t index = groupsOf reaches s t index := by
  rw [groupsOf, groupsOf, insertOf_congr htask, htask]

theorem insertsOf_congr : insertsOf config reaches s' t = insertsOf config reaches s t := by
  rw [insertsOf, insertsOf, funext (insertOf_congr htask)]

theorem work_congr (p : ProjectId) (id : SequenceId) :
    work config reaches s' p id t = work config reaches s p id t := by
  rw [work, work, insertsOf_congr htask]

end Congruence

/-- The admitted tasks stay what they are. -/
theorem task_kept {s s' : Executor}
    (h : s'.tasks = s.tasks ∨ ∃ task, s'.tasks = s.tasks ++ [task]) {t : Nat}
    (ht : t < s.tasks.length) : s'.task t = s.task t := by
  rcases h with hsame | ⟨task, hnew⟩
  · rw [Executor.task, hsame, Executor.task]
  · rw [Executor.task, hnew, Executor.task]
    exact task_append ht

/-! ## The invariant -/

/-- The group of the sequence is written, or the call is over. -/
def PastWrite (s : ColdStore) (t index : Nat) (id : SequenceId) : Prop :=
  3 ≤ progress (s.executor.stage t (.cold index)) ∨
    s.executor.stage t (.cold index) = .calling ∧ id ∉ s.unwritten index

section Invariant

variable (config baseName reaches)

/-- The task has written what it has for the sequence. -/
def Wrote (s : ColdStore) (id : SequenceId) (t : Nat) : Prop :=
  ∀ index, id ∈ groupsOf reaches s.executor t index → PastWrite s t index id

/-- The insert of a task is under way. -/
structure Underway (s : ColdStore) (index t : Nat) : Prop where
  holding : s.executor.holding (.cold index) = some t
  calling : s.executor.stage t (.cold index) = .calling
  groups : (s.unwritten index).Sublist (groupsOf reaches s.executor t index)

/-- Each table holds what the first so many tasks write, and they have written it. -/
def Tables (pairs : List (ProjectId × SequenceId)) (s : ColdStore) : Prop :=
  ∀ pair ∈ pairs, ∃ content,
    s.database.find (tableName pair.1 pair.2) = childTable baseName pair.1 pair.2 content ∧
      DoneInOrder (work config reaches s.executor pair.1 pair.2) (Wrote reaches s pair.2)
        s.executor.tasks.length content

/-- There are no other tables. -/
def Names (s : ColdStore) : Prop :=
  ∀ name ∈ s.database.keys, ∃ t < s.executor.tasks.length, ∃ index,
    ∃ id ∈ groupsOf reaches s.executor t index,
      name = tableName (s.executor.task t).data.projectId id

/-- What holds of the system after every run; the tables as long as the names of the
    admitted sequences are among some that are apart. -/
structure Serial (pairs : List (ProjectId × SequenceId)) (s : ColdStore) : Prop where
  executed : ∃ actions, s.executor = IngestExecutor.reached config actions
  underway : ∀ index, s.unwritten index ≠ [] → ∃ t, Underway reaches s index t
  names : Names reaches s
  tables : (∀ pair ∈ taskPairs s.executor, pair ∈ pairs) → Tables config baseName reaches pairs s

/-- Nothing that was admitted or written is taken back. -/
structure Extends (s s' : ColdStore) : Prop where
  tasks : s.executor.tasks <+: s'.executor.tasks
  past : ∀ t < s.executor.tasks.length, ∀ index, ∀ id ∈ groupsOf reaches s.executor t index,
    PastWrite s t index id → PastWrite s' t index id

end Invariant

theorem task_of_earlier {e e' : Executor} (h : e.tasks <+: e'.tasks) {t : Nat}
    (ht : t < e.tasks.length) : e'.task t = e.task t := by
  obtain ⟨more, hmore⟩ := h
  rw [Executor.task, ← hmore, List.getD_eq_getElem?_getD, List.getElem?_append_left ht,
    ← List.getD_eq_getElem?_getD, Executor.task]

theorem earlier_of_kept {e e' : Executor}
    (h : e'.tasks = e.tasks ∨ ∃ task, e'.tasks = e.tasks ++ [task]) : e.tasks <+: e'.tasks := by
  rcases h with hsame | ⟨task, hnew⟩
  · exact ⟨[], (List.append_nil _).trans hsame.symm⟩
  · exact ⟨[task], hnew.symm⟩

theorem Extends.refl (s : ColdStore) : Extends reaches s s :=
  ⟨List.prefix_refl _, fun _ _ _ _ _ h => h⟩

theorem Extends.trans {s s' s'' : ColdStore} (h : Extends reaches s s')
    (h' : Extends reaches s' s'') : Extends reaches s s'' := by
  refine ⟨h.tasks.trans h'.tasks, fun t ht index id hid hpast => ?_⟩
  refine h'.past t (ht.trans_le h.tasks.length_le) index id ?_ (h.past t ht index id hid hpast)
  rw [groupsOf_congr (task_of_earlier h.tasks ht)]
  exact hid

section Preservation

variable {pairs : List (ProjectId × SequenceId)} {s s' : ColdStore}

/-- The tables of the tasks remain. -/
theorem taskPairs_kept {e e' : Executor}
    (h : e'.tasks = e.tasks ∨ ∃ task, e'.tasks = e.tasks ++ [task]) :
    ∀ pair ∈ taskPairs e, pair ∈ taskPairs e' := by
  intro pair hpair
  obtain ⟨t, ht, point, hpoint, hproject, hid⟩ := mem_taskPairs.mp hpair
  refine mem_taskPairs.mpr ⟨t, ?_, point, ?_, ?_, hid⟩
  · rcases h with hsame | ⟨task, hnew⟩
    · rw [hsame]
      exact ht
    · rw [hnew, List.length_append]
      exact Nat.lt_add_right _ ht
  · rw [task_kept h ht]
    exact hpoint
  · rw [task_kept h ht]
    exact hproject

/-- A step that writes nothing, and after which the same groups are written. -/
theorem Tables.keep (h : Tables config baseName reaches pairs s)
    (hdatabase : s'.database = s.database)
    (htasks : s'.executor.tasks = s.executor.tasks ∨
      ∃ task, s'.executor.tasks = s.executor.tasks ++ [task])
    (hpast : ∀ t < s.executor.tasks.length, ∀ index, ∀ id ∈ groupsOf reaches s.executor t index,
      (PastWrite s' t index id ↔ PastWrite s t index id))
    (hnew : ∀ index id, ¬ PastWrite s' s.executor.tasks.length index id) :
    Tables config baseName reaches pairs s' := by
  intro pair hpair
  obtain ⟨content, hfind, hdone⟩ := h pair hpair
  refine ⟨content, hdatabase ▸ hfind, ?_⟩
  have hold : DoneInOrder (work config reaches s'.executor pair.1 pair.2)
      (Wrote reaches s' pair.2) s.executor.tasks.length content := by
    refine hdone.congr (fun t ht => work_congr (task_kept htasks ht) _ _) fun t ht _ => ?_
    refine forall_congr' fun index => ?_
    rw [groupsOf_congr (task_kept htasks ht)]
    exact forall_congr' fun hid => hpast t ht index _ hid
  rcases htasks with hsame | ⟨task, hnext⟩
  · rw [hsame]
    exact hold
  · rw [hnext, List.length_append]
    refine hold.admit fun hsome hwrote => ?_
    obtain ⟨-, index, hid⟩ := group_of_work hsome
    exact hnew index _ (hwrote index hid)

/-- A step that leaves the database keeps its names. -/
theorem Names.keep (h : Names reaches s) (hdatabase : s'.database = s.database)
    (htasks : s'.executor.tasks = s.executor.tasks ∨
      ∃ task, s'.executor.tasks = s.executor.tasks ++ [task]) : Names reaches s' := by
  intro name hname
  rw [hdatabase] at hname
  obtain ⟨t, ht, index, id, hid, rfl⟩ := h name hname
  refine ⟨t, ?_, index, id, ?_, ?_⟩
  · rcases htasks with hsame | ⟨task, hnext⟩
    · rw [hsame]
      exact ht
    · rw [hnext, List.length_append]
      exact Nat.lt_add_right _ ht
  · rw [groupsOf_congr (task_kept htasks ht)]
    exact hid
  · rw [task_kept htasks ht]

/-- A lane in its callback is in the hands of the shard's worker. -/
theorem holder_of_calling {e : Executor} (howned : Owned config e) {t index : Nat}
    (h : e.stage t (.cold index) = .calling) : e.holding (.cold index) = some t := by
  obtain ⟨w, hw, hheld⟩ := howned.held t (.cold index) ⟨by rw [h]; nofun, by rw [h]; nofun⟩
  cases w with
  | hot i => cases hw
  | cold i =>
      cases hw
      exact hheld

theorem owned_of_executed (h : ∃ actions, s.executor = IngestExecutor.reached config actions) :
    Owned config s.executor ∧ Counted config s.executor ∧ Routed config s.executor := by
  obtain ⟨actions, hactions⟩ := h
  rw [hactions]
  obtain ⟨howned, hcounted, hrouted, -⟩ := reached_routed config actions
  exact ⟨howned, hcounted, hrouted⟩

/-- A step of a reachable executor is reachable. -/
theorem executed_next (h : ∃ actions, s.executor = IngestExecutor.reached config actions)
    (action : IngestExecutor.Action) :
    ∃ actions, perform config s.executor action = IngestExecutor.reached config actions := by
  obtain ⟨actions, hactions⟩ := h
  refine ⟨actions ++ [action], ?_⟩
  rw [hactions]
  exact (run_append (perform config) {} actions [action]).symm

/-- A task that has not been admitted writes nothing. -/
theorem not_pastWrite_unadmitted {e : Executor} (howned : Owned config e)
    (h : ∀ index, s'.executor.stage e.tasks.length (.cold index) =
        e.stage e.tasks.length (.cold index) ∨
      ∃ waited, s'.executor.stage e.tasks.length (.cold index) = .waiting waited)
    (index : Nat) (id : SequenceId) : ¬ PastWrite s' e.tasks.length index id := by
  rcases h index with hsame | ⟨waited, hwaiting⟩
  · rw [howned.unadmitted (le_refl _)] at hsame
    rintro (hpast | ⟨hcalling, -⟩)
    · rw [hsame] at hpast
      exact absurd hpast (by decide)
    · rw [hsame] at hcalling
      cases hcalling
  · rintro (hpast | ⟨hcalling, -⟩)
    · rw [hwaiting] at hpast
      exact absurd (show 3 ≤ 1 from hpast) (by decide)
    · rw [hwaiting] at hcalling
      cases hcalling

/-- A step that no cold worker takes. -/
theorem Serial.others (h : Serial config baseName reaches pairs s) {action : IngestExecutor.Action}
    (hother : ∀ index callback, action ≠ .work (.cold index) callback) :
    Serial config baseName reaches pairs
        { s with executor := perform config s.executor action } ∧
      Extends reaches s { s with executor := perform config s.executor action } := by
  obtain ⟨howned, -, -⟩ := owned_of_executed h.executed
  have hframe : ∀ index, LaneFrame (.cold index) s.executor (perform config s.executor action) := by
    refine fun index => laneFrame_perform howned _ fun w callback hlane => ?_
    cases w with
    | hot i => cases hlane
    | cold i => exact hother i callback
  have htasks := (hframe 0).tasks
  have hpast : ∀ t index id,
      PastWrite { s with executor := perform config s.executor action } t index id ↔
        PastWrite s t index id := by
    intro t index id
    rcases (hframe index).stages t with hsame | ⟨hqueued, waited, hwaiting⟩
    · rw [PastWrite, PastWrite, hsame]
    · rw [PastWrite, PastWrite, hqueued, hwaiting]
      simp [progress]
  refine ⟨⟨executed_next h.executed action, fun index hsome => ?_, h.names.keep rfl htasks,
    fun hpairs => ?_⟩, earlier_of_kept htasks, fun t _ index id _ => (hpast t index id).mpr⟩
  · obtain ⟨t, hholding, hcalling, hgroups⟩ := h.underway index hsome
    have ht : t < s.executor.tasks.length := (howned.holds _ _ hholding).2.1.1
    refine ⟨t, (hframe index).holding _ t rfl hholding, ?_, ?_⟩
    · rcases (hframe index).stages t with hsame | ⟨hqueued, -⟩
      · exact hsame.trans hcalling
      · rw [hcalling] at hqueued
        cases hqueued
    · rw [groupsOf_congr (task_kept htasks ht)]
      exact hgroups
  · refine Tables.keep (h.tables fun pair hpair => hpairs pair (taskPairs_kept htasks _ hpair))
      rfl htasks (fun t _ index id _ => hpast t index id) ?_
    exact not_pastWrite_unadmitted howned fun index =>
      ((hframe index).stages _).imp_right fun hpopped => hpopped.2

/-- A step of a cold worker, by what it does to the groups of its task. -/
theorem Serial.worked (h : Serial config baseName reaches pairs s) {index t : Nat}
    {callback : Callback} {effect : Effect} (unwritten : List SequenceId)
    (hholding : s.executor.holding (.cold index) = some t)
    (hnext : perform config s.executor (.work (.cold index) callback) =
      applyEffect s.executor (.cold index) t effect)
    (hunderway : unwritten ≠ [] → effect.stage = .calling ∧
      unwritten.Sublist (groupsOf reaches s.executor t index))
    (hpast : ∀ id ∈ groupsOf reaches s.executor t index,
      (3 ≤ progress effect.stage ∨ effect.stage = .calling ∧ id ∉ unwritten ↔
        PastWrite s t index id)) :
    let next : ColdStore :=
      { s with
        executor := perform config s.executor (.work (.cold index) callback)
        unwritten := Function.update s.unwritten index unwritten }
    Serial config baseName reaches pairs next ∧ Extends reaches s next := by
  intro next
  obtain ⟨howned, -, -⟩ := owned_of_executed h.executed
  have htasks : (perform config s.executor (.work (.cold index) callback)).tasks =
      s.executor.tasks := by
    rw [hnext]
    rfl
  have hself : (applyEffect s.executor (.cold index) t effect).stage t (.cold index) =
      effect.stage := setStage_self s.executor.stage t (.cold index) effect.stage
  have hothers : ∀ a other, ¬ (a = t ∧ other = index) →
      (applyEffect s.executor (.cold index) t effect).stage a (.cold other) =
        s.executor.stage a (.cold other) := fun a other hne =>
    setStage_other (fun hsame => hne ⟨hsame.1, Lane.cold.inj hsame.2⟩) effect.stage
  have hkept : ∀ a, ∀ other, ∀ id ∈ groupsOf reaches s.executor a other,
      (PastWrite next a other id ↔ PastWrite s a other id) := by
    intro a other id hid
    show 3 ≤ progress ((perform _ _ _).stage _ _) ∨ (perform _ _ _).stage _ _ = _ ∧
      id ∉ Function.update s.unwritten index unwritten other ↔ _
    rw [hnext]
    by_cases hsame : a = t ∧ other = index
    · obtain ⟨rfl, rfl⟩ := hsame
      rw [hself, Function.update_self]
      exact hpast id hid
    · rw [hothers a other hsame, PastWrite]
      refine or_congr_right (and_congr_right fun hcalling => ?_)
      -- the shard's worker has one task in its hands
      have hne : other ≠ index := by
        rintro rfl
        have hheld := holder_of_calling howned hcalling
        rw [hholding] at hheld
        exact hsame ⟨(Option.some.inj hheld).symm, rfl⟩
      rw [Function.update_of_ne hne]
  refine ⟨⟨executed_next h.executed _, fun other hsome => ?_, h.names.keep rfl (Or.inl htasks),
    fun hpairs => ?_⟩, earlier_of_kept (Or.inl htasks),
    fun a _ other id hid => (hkept a other id hid).mpr⟩
  · change Function.update s.unwritten index unwritten other ≠ [] at hsome
    by_cases hother : other = index
    · subst hother
      obtain ⟨hcalling, hgroups⟩ := hunderway (by simpa using hsome)
      refine ⟨t, ?_, ?_, ?_⟩
      · show (perform _ _ _).holding _ = _
        rw [hnext, applyEffect_keeps (by rw [hcalling]; nofun)]
        exact hholding
      · show (perform _ _ _).stage _ _ = _
        rw [hnext, hself, hcalling]
      · show (Function.update s.unwritten other unwritten other).Sublist
          (groupsOf reaches (perform _ _ _) t other)
        rw [Function.update_self, hnext]
        exact hgroups
    · have hsome' : s.unwritten other ≠ [] := by
        simpa [Function.update_of_ne hother] using hsome
      obtain ⟨a, hheld, hcalling, hgroups⟩ := h.underway other hsome'
      refine ⟨a, ?_, ?_, ?_⟩
      · show (perform _ _ _).holding _ = _
        rw [hnext]
        exact (applyEffect_holding ..).mpr ⟨hheld, fun hover => hother (Worker.cold.inj hover.2)⟩
      · show (perform _ _ _).stage _ _ = _
        rw [hnext, hothers a other fun hsame => hother hsame.2]
        exact hcalling
      · show (Function.update s.unwritten index unwritten other).Sublist
          (groupsOf reaches (perform _ _ _) a other)
        rw [Function.update_of_ne hother, hnext]
        exact hgroups
  · have hpairs' : ∀ pair ∈ taskPairs s.executor, pair ∈ pairs := fun pair hpair =>
      hpairs pair (taskPairs_kept (Or.inl htasks) pair hpair)
    refine Tables.keep (h.tables hpairs') rfl (Or.inl htasks) (fun a _ other => hkept a other)
      (not_pastWrite_unadmitted howned fun other => Or.inl ?_)
    show (perform _ _ _).stage _ _ = _
    rw [hnext]
    refine hothers _ other fun hsame => ?_
    have ht := (howned.holds _ _ hholding).2.1.1
    rw [← hsame.1] at ht
    exact absurd ht (lt_irrefl _)

/-- A step of a cold worker whose insert, if there is one, is written. -/
theorem Serial.written (h : Serial config baseName reaches pairs s) {index t : Nat}
    (callback : Callback) (hholding : s.executor.holding (.cold index) = some t)
    (hstage : s.executor.stage t (.cold index) ≠ .waiting []) (hnone : s.unwritten index = []) :
    let next : ColdStore :=
      { s with executor := perform config s.executor (.work (.cold index) callback) }
    Serial config baseName reaches pairs next ∧ Extends reaches s next := by
  intro next
  obtain ⟨howned, -, -⟩ := owned_of_executed h.executed
  rcases workerStep_cases howned (.cold index) callback with
    hsame | ⟨a, effect, hheld, hmoves, hnext⟩
  · have hnext : next = s := by
      show { s with executor := perform config s.executor (.work (.cold index) callback) } = s
      rw [hsame]
    rw [hnext]
    exact ⟨h, .refl s⟩
  obtain rfl := Option.some.inj (hheld.symm.trans hholding)
  have hupdate : Function.update s.unwritten index [] = s.unwritten := by
    rw [← hnone]
    exact Function.update_eq_self index s.unwritten
  have hworked := h.worked [] hheld hnext (fun hsome => absurd rfl hsome) fun id _ => ?_
  · rw [hupdate] at hworked
    exact hworked
  · change Moves s.executor a (.cold index) effect at hmoves
    rw [PastWrite, hnone]
    cases hmoves with
    | start hwaiting => exact absurd hwaiting hstage
    | coldReturn _ hcalling => simp [progress, hcalling]
    | merge _ _ hcalling | countLast hcalling | count hcalling | finish hcalling
    | release hcalling => simp [progress, hcalling]

/-- The callback of a cold lane starts. -/
theorem Serial.start (h : Serial config baseName reaches pairs s) {index t : Nat}
    (callback : Callback) (hholding : s.executor.holding (.cold index) = some t)
    (hstage : s.executor.stage t (.cold index) = .waiting []) :
    let next : ColdStore :=
      { s with
        executor := perform config s.executor (.work (.cold index) callback)
        unwritten := Function.update s.unwritten index (groupsOf reaches s.executor t index) }
    Serial config baseName reaches pairs next ∧ Extends reaches s next := by
  have hnext : perform config s.executor (.work (.cold index) callback) =
      applyEffect s.executor (.cold index) t
        { stage := .calling
          state := s.executor.states t
          events := [.started t (.cold index)] } := by
    have heffect : laneEffect s.executor t (.cold index) callback =
        some { stage := .calling, state := s.executor.states t
               events := [.started t (.cold index)] } := by
      rw [laneEffect, hstage]
    rw [perform, IngestExecutor.step, hholding]
    show ((laneEffect s.executor t (.cold index) callback).map _).getD _ = _
    rw [heffect]
    rfl
  refine h.worked _ hholding hnext (fun _ => ⟨rfl, List.Sublist.refl _⟩) fun id hid => ?_
  simp [PastWrite, hstage, progress, hid]

/-- The groups of an insert under way. -/
theorem Underway.mem {index t : Nat} (h : Underway reaches s index t) {id : SequenceId}
    (hid : id ∈ s.unwritten index) : id ∈ groupsOf reaches s.executor t index :=
  h.groups.subset hid

/-- The groups still to be written are distinct. -/
theorem Underway.nodup {index t : Nat} (h : Underway reaches s index t) :
    (s.unwritten index).Nodup := by
  refine h.groups.nodup ?_
  rw [groupsOf]
  split
  · exact nodup_groupIds _
  · exact List.nodup_nil

/-- The state after the database has taken a group. -/
def afterWrite (baseName : String) (s : ColdStore) (index t : Nat) (id : SequenceId) : ColdStore :=
  { s with
    database :=
      writeGroup baseName (s.executor.task t).data.projectId
        ((s.executor.task t).coldBatches index).points s.database id
    unwritten := Function.update s.unwritten index ((s.unwritten index).erase id) }

/-- One more group is written. -/
theorem pastWrite_write (howned : Owned config s.executor) {index t : Nat}
    (h : Underway reaches s index t) (id : SequenceId) (a other : Nat) (id' : SequenceId) :
    PastWrite (afterWrite baseName s index t id) a other id' ↔
      PastWrite s a other id' ∨ a = t ∧ other = index ∧ id' = id := by
  show (3 ≤ progress (s.executor.stage a (.cold other)) ∨
    s.executor.stage a (.cold other) = .calling ∧
      id' ∉ Function.update s.unwritten index ((s.unwritten index).erase id) other) ↔ _
  rw [PastWrite]
  by_cases hother : other = index
  · subst hother
    rw [Function.update_self, h.nodup.mem_erase_iff]
    by_cases hself : a = t
    · subst hself
      simp only [h.calling, true_and, not_and_or, not_not]
      tauto
    · have hcalling : s.executor.stage a (.cold other) ≠ .calling := fun hcalling =>
        hself (Option.some.inj ((holder_of_calling howned hcalling).symm.trans h.holding))
      simp [hcalling, hself]
  · rw [Function.update_of_ne hother]
    simp [hother]

/-- The group is the one of its task for the sequence. -/
theorem wrote_afterWrite (howned : Owned config s.executor) (hrouted : Routed config s.executor)
    {index t : Nat} (h : Underway reaches s index t) {id : SequenceId}
    (hid : id ∈ groupsOf reaches s.executor t index) {a : Nat} (ha : a < s.executor.tasks.length)
    {pair : ProjectId × SequenceId} (hwork : work config reaches s.executor pair.1 pair.2 a ≠ []) :
    Wrote reaches (afterWrite baseName s index t id) pair.2 a ↔
      Wrote reaches s pair.2 a ∨ a = t ∧ pair = ((s.executor.task t).data.projectId, id) := by
  obtain ⟨hproject, shard, hshard⟩ := group_of_work hwork
  have honly : ∀ other, pair.2 ∈ groupsOf reaches s.executor a other → other = shard :=
    fun other hother => Option.some.inj ((route_of_group hrouted ha hother).1.symm.trans
      (route_of_group hrouted ha hshard).1)
  have hwrote : ∀ state : ColdStore, state.executor = s.executor →
      (Wrote reaches state pair.2 a ↔ PastWrite state a shard pair.2) := by
    intro state hexecutor
    rw [Wrote, hexecutor]
    exact ⟨fun hall => hall shard hshard, fun hpast other hother => honly other hother ▸ hpast⟩
  rw [hwrote (afterWrite baseName s index t id) rfl, hwrote s rfl, pastWrite_write howned h]
  refine or_congr_right (and_congr_right fun hself => ?_)
  subst hself
  constructor
  · rintro ⟨-, heq⟩
    exact Prod.ext hproject.symm heq
  · rintro rfl
    exact ⟨(honly index hid).symm, rfl⟩

/-- The group goes to the table of its sequence. -/
theorem find_afterWrite (hapart : NamesApart pairs) {pair : ProjectId × SequenceId}
    (hpair : pair ∈ pairs) {index t : Nat} {id : SequenceId}
    (hown : ((s.executor.task t).data.projectId, id) ∈ pairs) :
    (afterWrite baseName s index t id).database.find (tableName pair.1 pair.2) =
      if pair = ((s.executor.task t).data.projectId, id) then
        some (TaosClient.written baseName (s.executor.task t).data.projectId
          ((s.executor.task t).coldBatches index).points id
          (s.database.find (tableName pair.1 pair.2)))
      else s.database.find (tableName pair.1 pair.2) := by
  show (writeGroup baseName _ _ s.database id).find _ = _
  rw [writeGroup_eq, find_put]
  by_cases hsame : pair = ((s.executor.task t).data.projectId, id)
  · subst hsame
    rw [if_pos rfl, if_pos rfl]
  · rw [if_neg fun hname => hsame (hapart pair hpair _ hown hname), if_neg hsame]

/-- The earlier tasks that write for the sequence have done so. -/
theorem wrote_before (howned : Owned config s.executor) (hrouted : Routed config s.executor)
    {index t : Nat} (h : Underway reaches s index t) {id : SequenceId}
    (hid : id ∈ groupsOf reaches s.executor t index) {a : Nat} (ha : a < t)
    (hwork : work config reaches s.executor (s.executor.task t).data.projectId id a ≠ []) :
    Wrote reaches s id a := by
  have ht : t < s.executor.tasks.length := (howned.holds _ _ h.holding).2.1.1
  obtain ⟨hroute, -⟩ := route_of_group hrouted ht hid
  obtain ⟨hproject, -⟩ := group_of_work hwork
  intro other hgroup
  obtain ⟨hroute', hindex⟩ := route_of_group hrouted (ha.trans ht) hgroup
  rw [hproject, hroute] at hroute'
  obtain rfl := Option.some.inj hroute'
  obtain ⟨-, point, hpoint, -⟩ := mem_groupsOf.mp hgroup
  have hlane : HasLane config s.executor a (.cold index) :=
    ⟨ha.trans ht, (cold_mem_lanes config _ _).mpr ⟨hindex, List.ne_nil_of_mem hpoint⟩⟩
  have hactive : Active (s.executor.stage t (.cold index)) := by
    rw [h.calling]
    exact ⟨nofun, nofun⟩
  refine Or.inl ?_
  rw [Owned.done_before howned ha hlane hactive]
  decide

/-- The database takes a group. -/
theorem Serial.write (h : Serial config baseName reaches pairs s) (hapart : NamesApart pairs)
    {index t : Nat} (hunderway : Underway reaches s index t) {id : SequenceId}
    (hid : id ∈ s.unwritten index) :
    Serial config baseName reaches pairs (afterWrite baseName s index t id) ∧
      Extends reaches s (afterWrite baseName s index t id) := by
  obtain ⟨howned, -, hrouted⟩ := owned_of_executed h.executed
  have ht : t < s.executor.tasks.length := (howned.holds _ _ hunderway.holding).2.1.1
  have hgroup := hunderway.mem hid
  obtain ⟨hlands, point, hpoint, hsequence⟩ := mem_groupsOf.mp hgroup
  refine ⟨⟨h.executed, fun other hsome => ?_, fun name hname => ?_, fun hpairs => ?_⟩,
    List.prefix_refl _, fun a _ other id' _ hpast =>
      (pastWrite_write howned hunderway id a other id').mpr (Or.inl hpast)⟩
  · by_cases hother : other = index
    · subst hother
      refine ⟨t, hunderway.holding, hunderway.calling, ?_⟩
      show (Function.update s.unwritten other ((s.unwritten other).erase id) other).Sublist _
      rw [Function.update_self]
      exact List.erase_sublist.trans hunderway.groups
    · have hsame : (afterWrite baseName s index t id).unwritten other = s.unwritten other :=
        Function.update_of_ne hother _ _
      rw [hsame] at hsome
      obtain ⟨a, hheld, hcalling, hgroups⟩ := h.underway other hsome
      exact ⟨a, hheld, hcalling, hsame ▸ hgroups⟩
  · rw [show (afterWrite baseName s index t id).database = writeGroup _ _ _ s.database id from rfl,
      writeGroup_eq, mem_keys_put] at hname
    rcases hname with rfl | hold
    · exact ⟨t, ht, index, id, hgroup, rfl⟩
    · exact h.names name hold
  · obtain ⟨hroute, -⟩ := route_of_group hrouted ht hgroup
    have hown : ((s.executor.task t).data.projectId, id) ∈ pairs := by
      obtain ⟨writer, hfollows⟩ := hrouted.follows ht
      exact hpairs _ (mem_taskPairs.mpr ⟨t, ht, point, (hfollows.mem.mp hpoint).1, rfl, hsequence⟩)
    intro pair hpair
    obtain ⟨content, hfind, hcontent⟩ := h.tables hpairs pair hpair
    rw [find_afterWrite hapart hpair hown]
    by_cases hsame : pair = ((s.executor.task t).data.projectId, id)
    · subst hsame
      rw [if_pos rfl, hfind]
      have hincoming : incomingFor id ((s.executor.task t).coldBatches index).points ≠ [] :=
        List.ne_nil_of_mem (mem_incomingFor.mpr ⟨hpoint, hsequence⟩)
      have hchecks : insertChecks ((s.executor.task t).coldBatches index).points = none := by
        have hboth := (Bool.and_eq_true _ _).mp ((Bool.and_eq_true _ _).mp hlands).2
        exact Option.isNone_iff_eq_none.mp hboth.2
      refine ⟨_, written_childTable hincoming (checkGroup_of_insertChecks hchecks
        (mem_groupIds.mpr ⟨point, hpoint, hsequence⟩)), ?_⟩
      rw [← work_of_group hrouted ht hgroup]
      refine hcontent.finish ht (fun hwrote => ?_) (fun a ha hsome =>
        wrote_before howned hrouted hunderway hgroup ha hsome) fun a ha hsome => ?_
      · rcases hwrote index hgroup with hpast | ⟨-, hnot⟩
        · rw [hunderway.calling] at hpast
          exact absurd hpast (by decide)
        · exact hnot hid
      · rw [wrote_afterWrite howned hrouted hunderway hgroup ha hsome, and_iff_left rfl]
    · rw [if_neg hsame]
      refine ⟨content, hfind, hcontent.congr (fun _ _ => rfl) fun a ha hsome => ?_⟩
      rw [wrote_afterWrite howned hrouted hunderway hgroup ha hsome]
      exact or_iff_left fun hboth => hsame hboth.2

/-- **Every step** keeps the tables in the order of admission. -/
theorem Serial.step (h : Serial config baseName reaches pairs s) (hapart : NamesApart pairs)
    (action : Action) :
    Serial config baseName reaches pairs (step config baseName reaches s action) ∧
      Extends reaches s (step config baseName reaches s action) := by
  cases action with
  | write index id =>
      rw [ColdWriteOrder.step]
      split
      · rename_i hid
        obtain ⟨t, hunderway⟩ := h.underway index (List.ne_nil_of_mem hid)
        rw [hunderway.holding]
        exact h.write hapart hunderway hid
      · exact ⟨h, .refl s⟩
  | executor action =>
      cases action with
      | work w callback =>
          cases w with
          | hot index => exact h.others fun _ _ heq => by cases heq
          | cold index =>
              rw [ColdWriteOrder.step]
              cases hholding : s.executor.holding (.cold index) with
              | none => exact ⟨h, .refl s⟩
              | some t =>
                  have hnone : s.executor.stage t (.cold index) ≠ .calling →
                      s.unwritten index = [] := by
                    intro hcalling
                    by_contra hsome
                    obtain ⟨a, hheld, hstage, -⟩ := h.underway index hsome
                    obtain rfl := Option.some.inj (hheld.symm.trans hholding)
                    exact hcalling hstage
                  simp only
                  split
                  · rename_i hstage
                    exact h.start callback hholding hstage
                  · rename_i hstage
                    split
                    · rename_i hwritten
                      exact h.written callback hholding (by rw [hstage]; nofun) hwritten
                    · exact ⟨h, .refl s⟩
                  · rename_i hwaiting hcalling
                    exact h.written callback hholding hwaiting (hnone hcalling)
      | submit call request => exact h.others fun _ _ heq => by cases heq
      | route call => exact h.others fun _ _ heq => by cases heq
      | admission call => exact h.others fun _ _ heq => by cases heq
      | pop w => exact h.others fun _ _ heq => by cases heq
      | exit w => exact h.others fun _ _ heq => by cases heq
      | stop => exact h.others fun _ _ heq => by cases heq

end Preservation

/-! ## Runs -/

/-- Every reachable store holds, table by table, a serial history. -/
theorem serial_reached {pairs : List (ProjectId × SequenceId)} (hapart : NamesApart pairs)
    (actions : List Action) :
    Serial config baseName reaches pairs (reached config baseName reaches actions) := by
  refine @run_invariant _ _ (step config baseName reaches) (Serial config baseName reaches pairs)
    (fun _ => True) (fun s action _ h => (h.step hapart action).1) {} ?_ actions fun _ _ => trivial
  exact ⟨⟨[], rfl⟩, fun _ h => absurd rfl h, fun _ h => absurd h List.not_mem_nil,
    fun _ _ _ => ⟨[], rfl, doneInOrder_nil _ _⟩⟩

/-- A longer run extends a shorter one. -/
theorem extends_reached {pairs : List (ProjectId × SequenceId)} (hapart : NamesApart pairs)
    (actions more : List Action) :
    Extends reaches (reached config baseName reaches actions)
      (reached config baseName reaches (actions ++ more)) := by
  have hstart : Serial config baseName reaches pairs (reached config baseName reaches actions) :=
    serial_reached hapart actions
  rw [show reached config baseName reaches (actions ++ more) =
    run (step config baseName reaches) (reached config baseName reaches actions) more from
      run_append ..]
  refine (@run_invariant _ _ (step config baseName reaches)
    (fun s => Serial config baseName reaches pairs s ∧
      Extends reaches (reached config baseName reaches actions) s)
    (fun _ => True) (fun s action _ h => ?_) _ ⟨hstart, .refl _⟩ more fun _ _ => trivial).2
  obtain ⟨hserial, hextends⟩ := h.1.step hapart action
  exact ⟨hserial, h.2.trans hextends⟩

section Serial

variable {s : Executor}

/-- The inserts that land are accepted, one after another. -/
theorem coldRun_of_landing {history : List InsertCall}
    (h : ∀ call ∈ history, lands call = true ∧ call.affectedRows = call.batch.points.length) :
    ∃ database, ColdRun baseName history database := by
  induction history using List.reverseRecOn with
  | nil => exact ⟨_, .start⟩
  | append_singleton history call ih =>
      obtain ⟨database, hrun⟩ := ih fun other hother => h other (List.mem_append_left _ hother)
      obtain ⟨hlands, hrows⟩ := h call (List.mem_append_right _ List.mem_cons_self)
      refine ⟨_, hrun.insert call ?_⟩
      obtain ⟨hproject, hchecks⟩ := (Bool.and_eq_true _ _).mp hlands
      have hnone := Option.isNone_iff_eq_none.mp hchecks
      have hsome : call.batch.points.isEmpty = false := by
        by_contra hempty
        rw [insertChecks, if_pos (Bool.not_eq_false _ ▸ hempty)] at hnone
        cases hnone
      have hnamed : call.projectId.isEmpty = false := by simpa using hproject
      rw [runInsert, insertRawOnConnection, hsome, hnamed, hnone, hrows]
      simp [okResult]

theorem coldRun_serial (s : Executor) (n : Nat) :
    ∃ database, ColdRun baseName (serialHistory config reaches s n) database := by
  refine coldRun_of_landing fun call hcall => ?_
  obtain ⟨t, -, hcall⟩ := List.mem_flatMap.mp hcall
  obtain ⟨index, hindex, rfl⟩ := List.mem_map.mp hcall
  exact ⟨((Bool.and_eq_true _ _).mp (List.mem_filter.mp hindex).2).2, rfl⟩

/-- What is written are sequences of the admitted tasks. -/
theorem taskPairs_of_group (hrouted : Routed config s) {t index : Nat} (ht : t < s.tasks.length)
    {id : SequenceId} (hid : id ∈ groupsOf reaches s t index) :
    ((s.task t).data.projectId, id) ∈ taskPairs s := by
  obtain ⟨writer, hfollows⟩ := hrouted.follows ht
  obtain ⟨-, point, hpoint, hsequence⟩ := mem_groupsOf.mp hid
  exact mem_taskPairs.mpr ⟨t, ht, point, (hfollows.mem.mp hpoint).1, rfl, hsequence⟩

/-- A table in the serial history belongs to a task. -/
theorem taskPairs_of_written (hrouted : Routed config s) {pair : ProjectId × SequenceId}
    (h : pair ∈ writtenPairs (serialHistory config reaches s s.tasks.length)) :
    pair ∈ taskPairs s := by
  obtain ⟨call, hcall, hpair⟩ := List.mem_flatMap.mp h
  obtain ⟨t, ht, hcall⟩ := List.mem_flatMap.mp hcall
  obtain ⟨index, hindex, rfl⟩ := List.mem_map.mp hcall
  obtain ⟨point, hpoint, rfl⟩ := List.mem_map.mp hpair
  exact taskPairs_of_group hrouted (List.mem_range.mp ht)
    (mem_groupsOf.mpr ⟨(List.mem_filter.mp hindex).2, point, hpoint, rfl⟩)

end Serial

/-- The cold callbacks of all admitted tasks have returned. -/
def ColdReturned (config : Config) (s : Executor) : Prop :=
  ∀ t < s.tasks.length, ∀ index, Lane.cold index ∈ lanes config (s.task t) →
    .returned t (.cold index) ∈ s.log

/-- When they have, a table holds what all tasks write for its sequence, in order. -/
theorem Serial.find_returned {pairs : List (ProjectId × SequenceId)} {s : ColdStore}
    (h : Serial config baseName reaches pairs s)
    (hpairs : ∀ pair ∈ taskPairs s.executor, pair ∈ pairs)
    (hover : ColdReturned config s.executor) {pair : ProjectId × SequenceId}
    (hpair : pair ∈ pairs) :
    s.database.find (tableName pair.1 pair.2) = childTable baseName pair.1 pair.2
      ((List.range s.executor.tasks.length).flatMap
        (work config reaches s.executor pair.1 pair.2)) := by
  obtain ⟨-, hcounted, hrouted⟩ := owned_of_executed h.executed
  obtain ⟨content, hfind, hdone⟩ := h.tables hpairs pair hpair
  rw [hfind]
  refine congrArg _ (hdone.all fun t ht _ index hid => Or.inl ?_)
  obtain ⟨-, hindex⟩ := route_of_group hrouted ht hid
  obtain ⟨-, point, hpoint, -⟩ := mem_groupsOf.mp hid
  exact (hcounted.mem_log (e := .returned t (.cold index)) rfl).mp (hover t ht index
    ((cold_mem_lanes config _ _).mpr ⟨hindex, List.ne_nil_of_mem hpoint⟩))

/-- **COLD WRITES ARE SERIAL.**  After every interleaving of calls, workers, the
    destructor and the groups the database takes, whichever inserts reach it: the table of a
    sequence is the one the first so many tasks leave, and once the cold callbacks of all
    admitted tasks have returned, the database is the one that their inserts leave one after
    another, in the order of admission. -/
theorem cold_writes_serial (config : Config) (baseName : String) (reaches : Nat → Nat → Bool)
    (actions : List Action)
    (hapart : NamesApart (taskPairs (reached config baseName reaches actions).executor)) :
    let s := reached config baseName reaches actions
    (∀ pair ∈ taskPairs s.executor, ∃ n ≤ s.executor.tasks.length,
        s.database.find (tableName pair.1 pair.2) = childTable baseName pair.1 pair.2
          (writes (serialHistory config reaches s.executor n) pair.1 pair.2)) ∧
      (ColdReturned config s.executor →
        ∃ database, ColdRun baseName
            (serialHistory config reaches s.executor s.executor.tasks.length) database ∧
          ∀ name, s.database.find name = database.find name) := by
  intro s
  have hserial : Serial config baseName reaches (taskPairs s.executor) s :=
    serial_reached hapart actions
  obtain ⟨-, -, hrouted⟩ := owned_of_executed hserial.executed
  refine ⟨fun pair hpair => ?_, fun hover => ?_⟩
  · obtain ⟨content, hfind, n, hn, rfl, -⟩ := hserial.tables (fun _ h => h) pair hpair
    exact ⟨n, hn, by rw [hfind, writes_serialHistory]⟩
  obtain ⟨database, hrun⟩ := @coldRun_serial config baseName reaches s.executor
    s.executor.tasks.length
  have hmirror := mirror_of_run hrun hapart fun pair hpair => taskPairs_of_written hrouted hpair
  refine ⟨database, hrun, fun name => ?_⟩
  by_cases hname : ∃ pair ∈ taskPairs s.executor, name = tableName pair.1 pair.2
  · obtain ⟨pair, hpair, rfl⟩ := hname
    rw [hserial.find_returned (fun _ h => h) hover hpair, hmirror.tables pair hpair,
      writes_serialHistory]
  · -- a table of neither
    have hnone : ∀ table : Database, (∀ other ∈ table.keys, ∃ pair ∈ taskPairs s.executor,
        other = tableName pair.1 pair.2) → table.find name = none := by
      intro table hkeys
      by_contra hsome
      exact hname (hkeys name ((table.mem_keys name).mpr (Option.isSome_iff_ne_none.mpr hsome)))
    rw [hnone s.database, hnone database]
    · intro other hother
      obtain ⟨pair, hpair, heq⟩ := hmirror.names other hother
      exact ⟨pair, taskPairs_of_written hrouted hpair, heq⟩
    · intro other hother
      obtain ⟨t, ht, index, id, hid, rfl⟩ := hserial.names other hother
      exact ⟨_, taskPairs_of_group hrouted ht hid, rfl⟩

/-- Two tasks of one sequence; the inserts of both have returned. -/
def twoTasks : List Action :=
  let request (value : Int) : Request :=
    { resolved := some
        { projectId := "p"
          points := [{ time := value, sequenceId := "s", value := .int64 value }] } }
  let turn (index : Nat) : Action := .executor (.work (.cold index) (.cold {}))
  [.executor (.submit 0 (request 1)), .executor (.route 0), .executor (.admission 0),
    .executor (.submit 1 (request 2)), .executor (.route 1), .executor (.admission 1),
    .executor (.pop (.cold 0)), turn 0, .write 0 "s", turn 0, turn 0, turn 0,
    .executor (.pop (.cold 0)), turn 0, .write 0 "s", turn 0]

/-- Two cold workers and one hot worker. -/
def twoShards : Config where
  coldWorkerCount := 2
  queueCapacity := 8
  hotWorkerCount := 1
  cold_pos := Nat.two_pos
  capacity_pos := Nat.succ_pos 7
  hot_pos := Nat.one_pos

/-- Where the two tasks end. -/
def twoTasksEnd : ColdStore := reached twoShards "b" (fun _ _ => true) twoTasks

theorem twoTasksEnd_returned : ColdReturned twoShards twoTasksEnd.executor := by
  have hall : ∀ t < twoTasksEnd.executor.tasks.length,
      ∀ lane ∈ lanes twoShards (twoTasksEnd.executor.task t), lane = .hot ∨
        Event.returned t lane ∈ twoTasksEnd.executor.log := by decide +kernel
  intro t ht index hlane
  exact (hall t ht _ hlane).resolve_left fun heq => by cases heq

/-- Two tasks on two shards, to their end. -/
theorem cold_writes_serial_two_tasks :
    (∀ pair ∈ taskPairs twoTasksEnd.executor, ∃ n ≤ twoTasksEnd.executor.tasks.length,
        twoTasksEnd.database.find (tableName pair.1 pair.2) =
          childTable "b" pair.1 pair.2
            (writes (serialHistory twoShards (fun _ _ => true) twoTasksEnd.executor n)
              pair.1 pair.2)) ∧
      ∃ database, ColdRun "b" (serialHistory twoShards (fun _ _ => true)
          twoTasksEnd.executor twoTasksEnd.executor.tasks.length) database ∧
        ∀ name, twoTasksEnd.database.find name = database.find name := by
  obtain ⟨htables, hreturned⟩ := cold_writes_serial twoShards "b" (fun _ _ => true) twoTasks
    (namesApart_of_one (by decide +kernel))
  exact ⟨htables, hreturned twoTasksEnd_returned⟩

/-! ## Reading while writes are under way -/

theorem taskPairs_extended {s s' : ColdStore} (h : Extends reaches s s') :
    ∀ pair ∈ taskPairs s.executor, pair ∈ taskPairs s'.executor := by
  intro pair hpair
  obtain ⟨t, ht, point, hpoint, hproject, hid⟩ := mem_taskPairs.mp hpair
  rw [← task_of_earlier h.tasks ht] at hpoint hproject
  exact mem_taskPairs.mpr ⟨t, ht.trans_le h.tasks.length_le, point, hpoint, hproject, hid⟩

/-- A task whose callback for the shard of a sequence has returned has written its group. -/
theorem wrote_returned {s : ColdStore} (hcounted : Counted config s.executor)
    (hrouted : Routed config s.executor) {t index : Nat} (ht : t < s.executor.tasks.length)
    {id : SequenceId} (hid : id ∈ groupsOf reaches s.executor t index)
    (hreturned : .returned t (.cold index) ∈ s.executor.log) :
    Wrote reaches s id t ∧
      work config reaches s.executor (s.executor.task t).data.projectId id t ≠ [] := by
  refine ⟨fun other hother => ?_, ?_⟩
  · have hsame : other = index := Option.some.inj
      ((route_of_group hrouted ht hother).1.symm.trans (route_of_group hrouted ht hid).1)
    subst hsame
    exact Or.inl ((hcounted.mem_log (e := .returned t (.cold other)) rfl).mp hreturned)
  · obtain ⟨-, point, hpoint, hsequence⟩ := mem_groupsOf.mp hid
    rw [work_of_group hrouted ht hid]
    exact List.ne_nil_of_mem (mem_incomingFor.mpr ⟨hpoint, hsequence⟩)

/-- **READS ARE CONSISTENT.**  At two moments of a run, the table of a sequence is the one
    the first so many tasks leave, in the order of admission: later no fewer than before,
    and before no fewer than have had their inserts returned. -/
theorem cold_reads_consistent (config : Config) (baseName : String) (reaches : Nat → Nat → Bool)
    (actions more : List Action) (pair : ProjectId × SequenceId)
    (hapart : NamesApart
      (pair :: taskPairs (reached config baseName reaches (actions ++ more)).executor)) :
    let s := reached config baseName reaches actions
    let s' := reached config baseName reaches (actions ++ more)
    ∃ n n', n ≤ n' ∧ n' ≤ s'.executor.tasks.length ∧
      s.database.find (tableName pair.1 pair.2) = childTable baseName pair.1 pair.2
        (writes (serialHistory config reaches s'.executor n) pair.1 pair.2) ∧
      s'.database.find (tableName pair.1 pair.2) = childTable baseName pair.1 pair.2
        (writes (serialHistory config reaches s'.executor n') pair.1 pair.2) ∧
      ∀ t < s.executor.tasks.length, ∀ index,
        (s.executor.task t).data.projectId = pair.1 →
        pair.2 ∈ groupsOf reaches s.executor t index →
        .returned t (.cold index) ∈ s.executor.log → t < n := by
  intro s s'
  have hextends : Extends reaches s s' := extends_reached hapart actions more
  have hserial : Serial config baseName reaches (pair :: taskPairs s'.executor) s :=
    serial_reached hapart actions
  have hserial' : Serial config baseName reaches (pair :: taskPairs s'.executor) s' :=
    serial_reached hapart (actions ++ more)
  obtain ⟨content, hfind, hdone⟩ := hserial.tables
    (fun other hother => List.mem_cons_of_mem _ (taskPairs_extended hextends other hother)) pair
    List.mem_cons_self
  obtain ⟨content', hfind', hdone'⟩ := hserial'.tables (fun _ h => List.mem_cons_of_mem _ h) pair
    List.mem_cons_self
  obtain ⟨-, hcounted, hrouted⟩ := owned_of_executed hserial.executed
  obtain ⟨n, n', hle, hn', rfl, rfl, hkept⟩ := hdone.later hdone' hextends.tasks.length_le
    (fun t ht => work_congr (task_of_earlier hextends.tasks ht) _ _)
    fun t ht _ hwrote index hid => by
      rw [groupsOf_congr (task_of_earlier hextends.tasks ht)] at hid
      exact hextends.past t ht index _ hid (hwrote index hid)
  refine ⟨n, n', hle, hn', by rw [hfind, writes_serialHistory], by rw [hfind', writes_serialHistory],
    fun t ht index hproject hid hreturned => ?_⟩
  obtain ⟨hwrote, hsome⟩ := wrote_returned hcounted hrouted ht hid hreturned
  rw [hproject] at hsome
  exact hkept t ht hsome hwrote

/-- A table read in the middle of the run and at its end. -/
theorem cold_reads_consistent_two_tasks :
    ∃ n n', n ≤ n' ∧ n' ≤ twoTasksEnd.executor.tasks.length ∧
      (reached twoShards "b" (fun _ _ => true) (twoTasks.take 11)).database.find
          (tableName "p" "s") = childTable "b" "p" "s"
        (writes (serialHistory twoShards (fun _ _ => true) twoTasksEnd.executor n) "p" "s") ∧
      twoTasksEnd.database.find (tableName "p" "s") = childTable "b" "p" "s"
        (writes (serialHistory twoShards (fun _ _ => true) twoTasksEnd.executor n') "p" "s") ∧
      ∀ t < (reached twoShards "b" (fun _ _ => true) (twoTasks.take 11)).executor.tasks.length,
        ∀ index,
          ((reached twoShards "b" (fun _ _ => true) (twoTasks.take 11)).executor.task
            t).data.projectId = "p" →
          "s" ∈ groupsOf (fun _ _ => true)
            (reached twoShards "b" (fun _ _ => true) (twoTasks.take 11)).executor t index →
          .returned t (.cold index) ∈
            (reached twoShards "b" (fun _ _ => true) (twoTasks.take 11)).executor.log → t < n :=
  cold_reads_consistent twoShards "b" (fun _ _ => true) (twoTasks.take 11) (twoTasks.drop 11)
    ("p", "s") (namesApart_of_one (by decide +kernel))

end ColdWriteOrder
