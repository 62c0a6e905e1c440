import Mathlib.Data.List.Induction
import TimeSeriesEngine.ExecutorHotOrder

/-!
# Cold writes keep their sequences on one shard

A sequence is routed once: the table only grows (`Stepped.routes_kept`), every call
in progress agrees with it, and so does every admitted task (`Routed`).  The shard
has one worker, which serves its queue in order.
-/

namespace ExecutorRouting

open TseTypes KeyedTable IngestExecutor ExecutorOwnership ExecutorCounts ExecutorHotOrder EventLog

variable {config : Config} {s : Executor}

/-! ## Partition -/

/-- The points of a batch that the table sends to a shard. -/
def shardOf (writers : Table SequenceId Nat) (index : Nat) (point : RawTimeseriesPoint) : Bool :=
  decide (writers.find point.sequenceId = some index)

/-- What one shard receives from a loop over the points. -/
theorem partition_fold (writers : Table SequenceId Nat) (points : List RawTimeseriesPoint)
    (batches : Nat → TimeseriesBatch) (index : Nat) :
    (points.foldl
        (fun batches point =>
          match writers.find point.sequenceId with
          | some shard =>
              Function.update batches shard
                { batches shard with points := (batches shard).points ++ [point] }
          | none => batches)
        batches index).points =
      (batches index).points ++ points.filter (shardOf writers index) := by
  induction points generalizing batches with
  | nil => simp
  | cons point points ih =>
      rw [List.foldl_cons, ih, List.filter_cons]
      cases hfind : writers.find point.sequenceId with
      | none => simp [shardOf, hfind]
      | some shard =>
          by_cases hshard : shard = index
          · subst hshard
            simp [shardOf, hfind]
          · have hne : index ≠ shard := fun heq => hshard heq.symm
            simp [shardOf, hfind, hshard, Function.update_of_ne hne]

/-- A sub-batch holds the points of its shard, in the order of the batch. -/
theorem partition_points (writers : Table SequenceId Nat) (points : List RawTimeseriesPoint)
    (index : Nat) :
    (partition writers points index).points = points.filter (shardOf writers index) :=
  partition_fold writers points (fun _ => {}) index

/-! ## Routing -/

/-- Routing a key files it, and keeps the routes there are. -/
theorem writerForSequence_spec {key : String} {writers out : Table String Nat}
    {next next' writer : Nat}
    (h : writerForSequence config key writers next = (out, next', writer)) :
    out.find key = some writer ∧ (∀ k i, writers.find k = some i → out.find k = some i) ∧
      ((writers.find key = some writer ∧ out = writers ∧ next' = next) ∨
        (writers.find key = none ∧ out = put key next writers ∧ writer = next ∧
          next' = (next + 1) % config.coldWorkerCount)) := by
  rw [writerForSequence] at h
  cases hfind : writers.find key with
  | some existing =>
      simp only [hfind, Prod.mk.injEq] at h
      obtain ⟨rfl, rfl, rfl⟩ := h
      exact ⟨hfind, fun _ _ => id, Or.inl ⟨rfl, rfl, rfl⟩⟩
  | none =>
      simp only [hfind, Prod.mk.injEq] at h
      obtain ⟨rfl, rfl, rfl⟩ := h
      refine ⟨find_put_self _ _ _, ?_, Or.inr ⟨rfl, rfl, rfl, rfl⟩⟩
      intro k i hk
      have hne : k ≠ key := by
        rintro rfl
        rw [hfind] at hk
        cases hk
      rwa [find_put_of_ne hne]

/-- Every route is a shard, and calls and tasks follow the table. -/
structure Routed (config : Config) (s : Executor) : Prop where
  shard : ∀ key index, s.sequenceWriters.find key = some index → index < config.coldWorkerCount
  next : s.nextWriterIndex < config.coldWorkerCount
  agrees : ∀ call submission, s.submissions call = some submission → ∀ id index,
    submission.batchWriters.find id = some index →
      s.sequenceWriters.find (sequenceKey submission.data.projectId id) = some index
  known : ∀ call submission, s.submissions call = some submission →
    ∀ id ∈ batchSequenceIds submission.data.points, id ∉ submission.unrouted →
      ∃ index, submission.batchWriters.find id = some index
  tasks : ∀ t < s.tasks.length, ∃ writers : Table SequenceId Nat,
    (s.task t).coldBatches = partition writers (s.task t).data.points ∧
      ∀ point ∈ (s.task t).data.points, ∃ index,
        writers.find point.sequenceId = some index ∧
          s.sequenceWriters.find (sequenceKey (s.task t).data.projectId point.sequenceId) =
            some index

/-- A route is for ever. -/
theorem Stepped.routes_kept {s' : Executor} (h : Stepped config s s') {key : String} {index : Nat}
    (hroute : s.sequenceWriters.find key = some index) :
    s'.sequenceWriters.find key = some index := by
  cases h with
  | routed hcall hunrouted hwriter =>
      exact (writerForSequence_spec hwriter).2.1 key index hroute
  | @popped w t rest hstarted hfree hexited hqueue =>
      have hsame : (afterPop s w t).sequenceWriters = s.sequenceWriters := by
        rw [afterPop]
        cases w.lane with
        | hot => rfl
        | cold index => rfl
      rw [hsame]
      exact hroute
  | _ => exact hroute

theorem routed_init (config : Config) : Routed config {} where
  shard := fun key index h => by cases h
  next := config.cold_pos
  agrees := fun call submission h => by cases h
  known := fun call submission h => by cases h
  tasks := fun t ht => absurd ht (Nat.not_lt_zero t)

/-- What is neither routing nor admission. -/
theorem Routed.congr (h : Routed config s) {s' : Executor}
    (hwriters : s'.sequenceWriters = s.sequenceWriters) (hnext : s'.nextWriterIndex = s.nextWriterIndex)
    (hsubmissions : ∀ call submission, s'.submissions call = some submission →
      s.submissions call = some submission) (htasks : s'.tasks = s.tasks) : Routed config s' := by
  have htask : s'.task = s.task := funext fun t => by
    rw [Executor.task, htasks, Executor.task]
  refine ⟨?_, ?_, ?_, ?_, ?_⟩
  · rw [hwriters]
    exact h.shard
  · rw [hnext]
    exact h.next
  · intro call submission hcall
    rw [hwriters]
    exact h.agrees call submission (hsubmissions call submission hcall)
  · exact fun call submission hcall => h.known call submission (hsubmissions call submission hcall)
  · rw [htasks, htask, hwriters]
    exact h.tasks

theorem update_eq_some {f : Nat → Option Submission} {call call' : Nat} {v : Option Submission}
    {submission : Submission} (h : Function.update f call v call' = some submission) :
    (call' = call ∧ v = some submission) ∨ f call' = some submission := by
  by_cases hsame : call' = call
  · subst hsame
    rw [Function.update_self] at h
    exact Or.inl ⟨rfl, h⟩
  · rw [Function.update_of_ne hsame] at h
    exact Or.inr h

/-- A task takes the routes of its call along. -/
theorem Routed.admitTask (h : Routed config s) {call : Nat} {submission : Submission}
    (hcall : s.submissions call = some submission) (hrouted : submission.unrouted = []) :
    Routed config (admitTask config submission
      { s with submissions := Function.update s.submissions call none }) := by
  have hkeep : ∀ call' submission', Function.update s.submissions call none call' =
      some submission' → s.submissions call' = some submission' := by
    intro call' submission' hcall'
    rcases update_eq_some hcall' with ⟨-, hno⟩ | hold
    · cases hno
    · exact hold
  refine ⟨h.shard, h.next, ?_, ?_, ?_⟩
  · exact fun call' submission' hcall' => h.agrees call' submission' (hkeep _ _ hcall')
  · exact fun call' submission' hcall' => h.known call' submission' (hkeep _ _ hcall')
  · intro t ht
    rw [admit_tasks, List.length_append, List.length_singleton] at ht
    by_cases hlt : t < s.tasks.length
    · rw [@admit_task_old config
        { s with submissions := Function.update s.submissions call none } submission t hlt]
      exact h.tasks t hlt
    · obtain rfl : t = s.tasks.length := Nat.le_antisymm (Nat.lt_succ_iff.mp ht) (Nat.le_of_not_lt hlt)
      rw [@admit_task_new config submission
        { s with submissions := Function.update s.submissions call none }]
      refine ⟨submission.batchWriters, rfl, fun point hpoint => ?_⟩
      have hid := mem_batchSequenceIds.mpr ⟨point, hpoint, rfl⟩
      obtain ⟨index, hfind⟩ := h.known call submission hcall _ hid (by rw [hrouted]; exact List.not_mem_nil)
      exact ⟨index, hfind, h.agrees call submission hcall _ index hfind⟩

/-- Routing one sequence of a submission keeps the invariant. -/
theorem Routed.route (h : Routed config s) {call : Nat} {submission : Submission}
    {sequenceId : SequenceId} {rest : List SequenceId} {writers : Table String Nat}
    {next writer : Nat} (hcall : s.submissions call = some submission)
    (hunrouted : submission.unrouted = sequenceId :: rest)
    (hwriter : writerForSequence config (sequenceKey submission.data.projectId sequenceId)
      s.sequenceWriters s.nextWriterIndex = (writers, next, writer)) :
    Routed config { s with
      sequenceWriters := writers
      nextWriterIndex := next
      submissions := Function.update s.submissions call
        (some { submission with
          unrouted := rest
          batchWriters := put sequenceId writer submission.batchWriters }) } := by
  obtain ⟨hfound, hgrows, hhow⟩ := writerForSequence_spec hwriter
  refine ⟨?_, ?_, ?_, ?_, ?_⟩
  · intro key index hfind
    rcases hhow with ⟨-, rfl, -⟩ | ⟨-, rfl, -, -⟩
    · exact h.shard key index hfind
    · rw [find_put] at hfind
      split at hfind
      · cases hfind
        exact h.next
      · exact h.shard key index hfind
  · rcases hhow with ⟨-, -, hnext⟩ | ⟨-, -, -, hnext⟩
    · exact hnext ▸ h.next
    · exact hnext ▸ Nat.mod_lt _ config.cold_pos
  · intro call' submission' hcall' id index hfind
    rcases update_eq_some hcall' with ⟨-, hnew⟩ | hold
    · cases hnew
      rw [find_put] at hfind
      split at hfind
      · rename_i hid
        cases hfind
        rw [hid]
        exact hfound
      · exact hgrows _ _ (h.agrees call submission hcall id index hfind)
    · exact hgrows _ _ (h.agrees call' submission' hold id index hfind)
  · intro call' submission' hcall' id hid hnot
    rcases update_eq_some hcall' with ⟨-, hnew⟩ | hold
    · cases hnew
      rw [find_put]
      by_cases heq : id = sequenceId
      · exact ⟨writer, if_pos heq⟩
      · rw [if_neg heq]
        refine h.known call submission hcall id hid ?_
        rw [hunrouted]
        exact fun hmem => hnot ((List.mem_cons.mp hmem).resolve_left heq)
    · exact h.known call' submission' hold id hid hnot
  · intro t ht
    obtain ⟨batch, hbatches, hpoints⟩ := h.tasks t ht
    refine ⟨batch, hbatches, fun point hpoint => ?_⟩
    obtain ⟨index, hfind, hroute⟩ := hpoints point hpoint
    exact ⟨index, hfind, hgrows _ _ hroute⟩

/-- Every step keeps it. -/
theorem Routed.step (h : Routed config s) {s' : Executor} (hstep : Stepped config s s') :
    Routed config s' := by
  cases hstep with
  | @submitted call data hfree =>
      refine ⟨h.shard, h.next, ?_, ?_, h.tasks⟩
      · intro call' submission hcall id index hfind
        rcases update_eq_some hcall with ⟨-, hnew⟩ | hold
        · cases hnew
          cases hfind
        · exact h.agrees call' submission hold id index hfind
      · intro call' submission hcall id hid hunrouted
        rcases update_eq_some hcall with ⟨-, hnew⟩ | hold
        · cases hnew
          exact absurd hid hunrouted
        · exact h.known call' submission hold id hid hunrouted
  | refused call result submissions hsubmissions => exact h.congr rfl rfl hsubmissions rfl
  | routed hcall hunrouted hwriter => exact h.route hcall hunrouted hwriter
  | admitted hcall hrouted hopen hroom => exact h.admitTask hcall hrouted
  | @popped w t rest hstarted hfree hexited hqueue =>
      have hsame : (afterPop s w t).sequenceWriters = s.sequenceWriters ∧
          (afterPop s w t).nextWriterIndex = s.nextWriterIndex ∧
          (afterPop s w t).submissions = s.submissions ∧ (afterPop s w t).tasks = s.tasks := by
        rw [afterPop]
        cases w.lane with
        | hot => exact ⟨rfl, rfl, rfl, rfl⟩
        | cold index => exact ⟨rfl, rfl, rfl, rfl⟩
      obtain ⟨hwriters, hnext, hsubmissions, htasks⟩ := hsame
      exact h.congr hwriters hnext (fun _ _ hcall => by rw [← hsubmissions]; exact hcall) htasks
  | worked hholding hmoves => exact h.congr rfl rfl (fun _ _ => id) rfl
  | left hfree hstopping hqueue => exact h.congr rfl rfl (fun _ _ => id) rfl
  | stopped => exact h.congr rfl rfl (fun _ _ => id) rfl

/-! ## One worker for a shard -/

/-- A cold callback starts behind the return of those of earlier tasks on the shard. -/
def InShardOrder (config : Config) (tasks : Nat → Task) (e : Event) (before : List Event) :
    Prop :=
  ∀ b index, e = .started b (.cold index) → ∀ a < b, Lane.cold index ∈ lanes config (tasks a) →
    .returned a (.cold index) ∈ before

/-- A shard has one worker. -/
theorem worker_of_cold {w w' : Worker} {index : Nat} (h : w.lane = .cold index)
    (h' : w'.lane = .cold index) : w = w' := by
  cases w with
  | hot i => cases h
  | cold i =>
      cases w' with
      | hot i' => cases h'
      | cold i' =>
          cases h
          cases h'
          rfl

/-- While a shard's worker has a task in its hands, it is done with the earlier ones. -/
theorem Owned.done_before (h : Owned config s) {a b index : Nat} (hab : a < b)
    (ha : HasLane config s a (.cold index)) (hb : Active (s.stage b (.cold index))) :
    s.stage a (.cold index) = .done := by
  by_contra hopen
  have hpopped := h.fifo (.cold index) a b hab ha hb.1
  obtain ⟨w, hw, hholding⟩ := h.held a (.cold index) ⟨hpopped, hopen⟩
  obtain ⟨w', hw', hholding'⟩ := h.held b (.cold index) hb
  rw [worker_of_cold hw hw', hholding'] at hholding
  cases hholding
  exact absurd hab (Nat.lt_irrefl _)

/-- The callback of a cold lane is started by one step only. -/
theorem Moves.starts {t : Nat} {lane : Lane} {effect : Effect} (h : Moves s t lane effect) :
    effect.events = [] ∨ ∃ e, effect.events = [e] ∧
      ∀ b index, e = .started b (.cold index) → b = t ∧ lane = .cold index := by
  cases h with
  | waited hstage | start hstage | hotReturn _ hstage | coldReturn _ hstage | order hstage
  | answer _ _ hstage | announce hstage | merge _ _ hstage | countLast hstage | count hstage
  | finish hstage | release hstage => simp <;> grind

/-- Every step starts the tasks of a shard in their order. -/
theorem inShardOrder_step (howned : Owned config s) (hcounted : Counted config s)
    (h : Licensed (InShardOrder config s.task) s.log) {s' : Executor}
    (hstep : Stepped config s s') : Licensed (InShardOrder config s'.task) s'.log := by
  rcases hstep.shape with hquiet | ⟨call, submission, hcall, hrouted, hopen, hroom, rfl⟩ |
    ⟨w, t, rest, hqueue, rfl⟩ | ⟨w, t, effect, hholding, hmoves, rfl⟩
  · have htask : s'.task = s.task := funext fun t => by
      rw [Executor.task, hquiet.tasks, Executor.task]
    rw [htask]
    rcases hquiet.log with hsame | ⟨call, result, hsame⟩
    · rw [hsame]
      exact h
    · rw [hsame]
      exact licensed_snoc h fun b index hb => by cases hb
  · refine licensed_snoc (h.mono ?_) fun b index hb => by cases hb
    -- a task that has started was admitted before
    rintro x hx before hlicence b index rfl a hab hlane
    have hbegun := (hcounted.mem_log (e := .started b (.cold index)) rfl).mp hx
    have hlt : b < s.tasks.length := by
      by_contra hge
      rw [howned.unadmitted (Nat.le_of_not_lt hge) _] at hbegun
      exact absurd hbegun (by decide)
    rw [@admit_task_old config { s with submissions := Function.update s.submissions call none }
      submission a (Nat.lt_trans hab hlt)] at hlane
    exact hlicence b index rfl a hab hlane
  · obtain ⟨htask, hlog⟩ : (afterPop s w t).task = s.task ∧ (afterPop s w t).log = s.log := by
      rw [afterPop]
      cases w.lane with
      | hot => exact ⟨rfl, rfl⟩
      | cold index => exact ⟨rfl, rfl⟩
    rw [htask, hlog]
    exact h
  · show Licensed (InShardOrder config s.task) (s.log ++ effect.events)
    obtain ⟨-, ⟨hadmitted, -⟩, hactive⟩ := howned.holds w t hholding
    rcases Moves.starts hmoves with hnone | ⟨e, hone, hstarts⟩
    · rw [hnone, List.append_nil]
      exact h
    · rw [hone]
      refine licensed_snoc h ?_
      intro b index hb a hab hlane
      obtain ⟨rfl, hw⟩ := hstarts b index hb
      rw [hw] at hactive
      have hdone := Owned.done_before howned hab ⟨Nat.lt_trans hab hadmitted, hlane⟩ hactive
      refine (hcounted.mem_log (e := .returned a (.cold index)) rfl).mpr ?_
      rw [hdone]
      decide

/-! ## Runs -/

/-- The invariants hold of every reachable executor. -/
theorem reached_routed (config : Config) (actions : List Action) :
    Owned config (reached config actions) ∧ Counted config (reached config actions) ∧
      Routed config (reached config actions) ∧
      Licensed (InShardOrder config (reached config actions).task) (reached config actions).log := by
  refine reached_invariant config
    (P := fun s => Counted config s ∧ Routed config s ∧
      Licensed (InShardOrder config s.task) s.log)
    ⟨counted_init config, routed_init config, licensed_nil _⟩ ?_ actions
  rintro s s' howned ⟨hcounted, hrouted, hlog⟩ hstep
  exact ⟨hcounted.step howned hstep, hrouted.step hstep,
    inShardOrder_step howned hcounted hlog hstep⟩

/-- A step keeps the routes. -/
theorem perform_routes_kept (howned : Owned config s) (action : Action) {key : String}
    {index : Nat} (hroute : s.sequenceWriters.find key = some index) :
    (perform config s action).sequenceWriters.find key = some index := by
  rw [perform]
  cases hstep : IngestExecutor.step config s action with
  | none => exact hroute
  | some s' => exact Stepped.routes_kept (step_cases howned.fits hstep) hroute

/-- A run keeps the routes. -/
theorem run_routes_kept (actions more : List Action) {key : String} {index : Nat}
    (hroute : (reached config actions).sequenceWriters.find key = some index) :
    (reached config (actions ++ more)).sequenceWriters.find key = some index := by
  induction more using List.reverseRecOn with
  | nil => rwa [List.append_nil]
  | append_singleton more action ih =>
      rw [← List.append_assoc, reached, Transition.run_append]
      exact perform_routes_kept (reached_owned config _) action ih

/-- The sub-batches of a task are its points by writer, in input order, and the
    writers are the shards of the routing table. -/
structure FollowsTable (config : Config) (s : Executor) (task : Task)
    (writer : SequenceId → Nat) : Prop where
  batches : ∀ index, (task.coldBatches index).points =
    task.data.points.filter fun point => decide (writer point.sequenceId = index)
  shard : ∀ point ∈ task.data.points, writer point.sequenceId < config.coldWorkerCount
  route : ∀ point ∈ task.data.points,
    s.sequenceWriters.find (sequenceKey task.data.projectId point.sequenceId) =
      some (writer point.sequenceId)

/-- Each task has been split by the table of routes. -/
theorem Routed.follows (h : Routed config s) {t : Nat} (ht : t < s.tasks.length) :
    ∃ writer, FollowsTable config s (s.task t) writer := by
  obtain ⟨writers, hbatches, hpoints⟩ := h.tasks t ht
  have hroute : ∀ point ∈ (s.task t).data.points,
      s.sequenceWriters.find (sequenceKey (s.task t).data.projectId point.sequenceId) =
        some ((writers.find point.sequenceId).getD 0) := by
    intro point hpoint
    obtain ⟨shard, hfind, hroute⟩ := hpoints point hpoint
    rw [hfind]
    exact hroute
  refine ⟨fun id => (writers.find id).getD 0, ?_, ?_, hroute⟩
  · intro index
    rw [hbatches, partition_points]
    refine List.filter_congr fun point hpoint => ?_
    obtain ⟨shard, hfind, -⟩ := hpoints point hpoint
    show decide (writers.find point.sequenceId = some index) =
      decide ((writers.find point.sequenceId).getD 0 = index)
    rw [hfind]
    exact decide_eq_decide.mpr Option.some_inj
  · exact fun point hpoint => h.shard _ _ (hroute point hpoint)

theorem FollowsTable.mem {task : Task} {writer : SequenceId → Nat}
    (h : FollowsTable config s task writer) {point : RawTimeseriesPoint} {index : Nat} :
    point ∈ (task.coldBatches index).points ↔
      point ∈ task.data.points ∧ writer point.sequenceId = index := by
  rw [h.batches, List.mem_filter, decide_eq_true_iff]

/-- The cold write of the task on a shard starts behind the return of the other's. -/
def WritesAfter (s : Executor) (a b index : Nat) : Prop :=
  ∀ before after, s.log = before ++ .started b (.cold index) :: after →
    .returned a (.cold index) ∈ before

/-- **COLD SHARDING.**  After every interleaving: the sub-batches of a task partition
    its points by the shards of the routing table, in input order; a route is a shard,
    the calls in progress agree with it, and no later step changes it; and where two
    tasks share a sequence, both write it on one shard, in order of admission. -/
theorem cold_sharding (config : Config) (actions : List Action) :
    (∀ t < (reached config actions).tasks.length, ∃ writer,
        FollowsTable config (reached config actions) ((reached config actions).task t) writer) ∧
      (∀ key index, (reached config actions).sequenceWriters.find key = some index →
        index < config.coldWorkerCount ∧ ∀ more,
          (reached config (actions ++ more)).sequenceWriters.find key = some index) ∧
      (∀ call submission, (reached config actions).submissions call = some submission →
        ∀ id index, submission.batchWriters.find id = some index →
          (reached config actions).sequenceWriters.find
            (sequenceKey submission.data.projectId id) = some index) ∧
      ∀ a b, a < b → b < (reached config actions).tasks.length →
        ((reached config actions).task a).data.projectId =
            ((reached config actions).task b).data.projectId →
          ∀ p ∈ ((reached config actions).task a).data.points,
            ∀ q ∈ ((reached config actions).task b).data.points, p.sequenceId = q.sequenceId →
              ∃ index, p ∈ (((reached config actions).task a).coldBatches index).points ∧
                q ∈ (((reached config actions).task b).coldBatches index).points ∧
                WritesAfter (reached config actions) a b index := by
  obtain ⟨howned, -, hrouted, horder⟩ := reached_routed config actions
  refine ⟨fun t ht => hrouted.follows ht, ?_, hrouted.agrees, ?_⟩
  · exact fun key index hroute =>
      ⟨hrouted.shard key index hroute, fun more => run_routes_kept actions more hroute⟩
  · intro a b hab hb hproject p hp q hq hsequence
    obtain ⟨writer, ha⟩ := hrouted.follows (Nat.lt_trans hab hb)
    obtain ⟨writer', hb'⟩ := hrouted.follows hb
    -- both tasks follow the table
    have hsame : writer' q.sequenceId = writer p.sequenceId := by
      have hfind := ha.route p hp
      rw [hproject, hsequence, hb'.route q hq] at hfind
      rw [hsequence]
      exact Option.some.inj hfind
    have hpin := ha.mem.mpr ⟨hp, rfl⟩
    refine ⟨writer p.sequenceId, hpin, hb'.mem.mpr ⟨hq, hsame⟩, ?_⟩
    intro before after hlog
    refine horder before _ after hlog b _ rfl a hab ?_
    exact (cold_mem_lanes config _ _).mpr ⟨ha.shard p hp, List.ne_nil_of_mem hpin⟩

end ExecutorRouting
