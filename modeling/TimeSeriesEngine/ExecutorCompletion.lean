import Mathlib.Algebra.Order.BigOperators.Group.List
import TimeSeriesEngine.ExecutorHotOrder

/-!
# Accepted tasks complete once

`completion` is set by the lane that is counted off last, behind the other lanes
(`LastLane`); every callback runs once; and when all workers have left, every
accepted task is complete.
-/

namespace ExecutorCompletion

open TseTypes KeyedTable IngestExecutor ExecutorOwnership ExecutorCounts ExecutorHotOrder EventLog

variable {config : Config} {s : Executor}

/-! ## The last lane -/

/-- The lane has been counted off behind all other lanes of the task. -/
def LastLane (config : Config) (task : Task) (t : Nat) (lane : Lane) (log : List Event) : Prop :=
  lane ∈ lanes config task ∧ ∃ before between, log = before ++ .finished t lane :: between ∧
    ∀ other ∈ lanes config task, other ≠ lane → .finished t other ∈ before

theorem LastLane.append {task : Task} {t : Nat} {lane : Lane} {log : List Event}
    (h : LastLane config task t lane log) (events : List Event) :
    LastLane config task t lane (log ++ events) := by
  obtain ⟨hlane, before, between, rfl, hothers⟩ := h
  exact ⟨hlane, before, between ++ events, by simp, hothers⟩

/-- Only the last lane sets the completion. -/
def ByLastLane (config : Config) (tasks : Nat → Task) (e : Event) (before : List Event) : Prop :=
  ∀ t lane, e = .completed t lane → LastLane config (tasks t) t lane before

/-- What is known of a task that is being closed, or has been. -/
structure Closed (config : Config) (s : Executor) : Prop where
  finishing : ∀ t lane, progress (s.stage t lane) = 7 →
    LastLane config (s.task t) t lane s.log
  completed : Licensed (ByLastLane config s.task) s.log

theorem closed_init (config : Config) : Closed config {} where
  finishing := fun t lane h => absurd (show 0 = 7 from h) (by decide)
  completed := licensed_nil _

/-- A step that changes no task keeps the invariant. -/
theorem Closed.quiet (h : Closed config s) {s' : Executor} (hquiet : Quiet s s') :
    Closed config s' := by
  have htask : s'.task = s.task := funext fun t => by
    rw [Executor.task, hquiet.tasks, Executor.task]
  refine ⟨?_, ?_⟩
  · intro t lane hstage
    rw [hquiet.stage] at hstage
    rw [htask]
    rcases hquiet.log with hsame | ⟨call, result, hsame⟩
    · rw [hsame]
      exact h.finishing t lane hstage
    · rw [hsame]
      exact (h.finishing t lane hstage).append _
  · rw [htask]
    rcases hquiet.log with hsame | ⟨call, result, hsame⟩
    · rw [hsame]
      exact h.completed
    · rw [hsame]
      exact licensed_snoc h.completed fun t lane heq => by cases heq

/-- The completion of a task that has not been admitted is not set. -/
theorem Counted.admitted_of_completed (h : Counted config s) (howned : Owned config s) {t : Nat}
    {lane : Lane} (hmem : Event.completed t lane ∈ s.log) : t < s.tasks.length := by
  by_contra hge
  have hle := Nat.le_of_not_lt hge
  obtain ⟨hopen, -, -⟩ := @stageCount_default config s t (task_unadmitted hle)
    (howned.unadmitted hle)
  have hcompletion := h.completion t
  rw [hopen, if_neg Nat.one_ne_zero] at hcompletion
  have hpos : 0 < s.log.countP (completes t) :=
    List.countP_pos_iff.mpr ⟨_, hmem, decide_eq_true rfl⟩
  omega

/-- Admitting a task keeps it. -/
theorem Closed.admitTask (h : Closed config s) (howned : Owned config s) (hcounted : Counted config s)
    (submission : Submission) : Closed config (admitTask config submission s) := by
  have hold : ∀ t, t < s.tasks.length →
      (IngestExecutor.admitTask config submission s).task t = s.task t :=
    fun t ht => admit_task_old submission ht
  refine ⟨?_, ?_⟩
  · intro t lane hstage
    have hlt : t < s.tasks.length := by
      by_contra hge
      rw [show (IngestExecutor.admitTask config submission s).stage t lane = s.stage t lane from rfl,
        howned.unadmitted (Nat.le_of_not_lt hge) lane] at hstage
      exact absurd (show 0 = 7 from hstage) (by decide)
    rw [hold t hlt]
    exact (h.finishing t lane hstage).append _
  · refine licensed_snoc (h.completed.mono ?_) fun t lane heq => by cases heq
    rintro x hx before hlicence t lane rfl
    rw [hold t (Counted.admitted_of_completed hcounted howned hx)]
    exact hlicence t lane rfl

/-- Taking a task off a queue keeps it. -/
theorem Closed.pop (h : Closed config s) {w : Worker} {t : Nat} : Closed config (afterPop s w t) := by
  obtain ⟨htask, hlog⟩ : (afterPop s w t).task = s.task ∧ (afterPop s w t).log = s.log := by
    rw [afterPop]
    cases w.lane with
    | hot => exact ⟨rfl, rfl⟩
    | cold index => exact ⟨rfl, rfl⟩
  refine ⟨?_, ?_⟩
  · intro t' lane hstage
    rw [htask, hlog]
    by_cases hsame : t' = t ∧ lane = w.lane
    · obtain ⟨rfl, rfl⟩ := hsame
      rw [show (afterPop s w t').stage t' w.lane = _ from setStage_self ..] at hstage
      have hwaits : progress (popped s t' w.lane) = 1 := by
        cases w.lane with
        | hot => rfl
        | cold index => rfl
      exact absurd (hwaits.symm.trans hstage) (by decide)
    · rw [afterPop_stage_other s w t t' lane hsame] at hstage
      exact h.finishing t' lane hstage
  · rw [htask, hlog]
    exact h.completed

/-- A lane in front of the completion has just been counted off as the last one, and
    a step that sets a completion is one behind that. -/
theorem Moves.closing {t : Nat} {lane : Lane} {effect : Effect} (h : Moves s t lane effect) :
    (progress effect.stage = 7 → effect.events = [.finished t lane] ∧
        effect.state.remainingLanes = 0) ∧
      (effect.events = [] ∨ ∃ e, effect.events = [e] ∧
        ∀ t' lane', e = .completed t' lane' →
          t' = t ∧ lane' = lane ∧ progress (s.stage t lane) = 7) := by
  cases h with
  | waited hstage | start hstage | hotReturn _ hstage | coldReturn _ hstage | order hstage
  | answer _ _ hstage | announce hstage | merge _ _ hstage | count hstage | release hstage =>
      simp [progress]
  | countLast hstage hlast => simp [hlast]
  | finish hstage =>
      rw [hstage]
      simp [progress]

/-- A step of a worker keeps it. -/
theorem Closed.work (h : Closed config s) (howned : Owned config s) (hcounted : Counted config s)
    {w : Worker} {t : Nat} {effect : Effect} (hholding : s.holding w = some t)
    (hmoves : Moves s t w.lane effect) : Closed config (applyEffect s w t effect) := by
  obtain ⟨-, ⟨-, hlane⟩, -⟩ := howned.holds w t hholding
  obtain ⟨hfinishing, hevents⟩ := Moves.closing hmoves
  have hstageOther := applyEffect_stage_other s w t effect
  refine ⟨?_, ?_⟩
  · intro t' lane hstage
    show LastLane config (s.task t') t' lane (s.log ++ effect.events)
    by_cases hsame : t' = t ∧ lane = w.lane
    · obtain ⟨rfl, rfl⟩ := hsame
      rw [show (applyEffect s w t' effect).stage t' w.lane = effect.stage from setStage_self ..]
        at hstage
      obtain ⟨hfinished, hzero⟩ := hfinishing hstage
      -- no lane is left to count off
      have hremaining := (hcounted.work howned hholding hmoves).remaining t'
      rw [show (applyEffect s w t' effect).states t' = effect.state from Function.update_self ..,
        hzero, eq_comm, stageCount_eq_zero] at hremaining
      refine ⟨hlane, s.log, [], by rw [hfinished], fun other hother hne => ?_⟩
      have hclosed := hremaining other hother
      rw [hstageOther t' other fun heq => hne heq.2] at hclosed
      refine (hcounted.mem_log (e := .finished t' other) rfl).mpr ?_
      simpa [isOpen] using hclosed
    · rw [hstageOther t' lane hsame] at hstage
      exact (h.finishing t' lane hstage).append _
  · show Licensed (ByLastLane config s.task) (s.log ++ effect.events)
    rcases hevents with hnone | ⟨e, hone, he⟩
    · rw [hnone, List.append_nil]
      exact h.completed
    · rw [hone]
      refine licensed_snoc h.completed ?_
      intro t' lane' heq
      obtain ⟨rfl, rfl, hstage⟩ := he t' lane' heq
      exact h.finishing _ _ hstage

/-- The invariants hold of every reachable executor. -/
theorem reached_closed (config : Config) (actions : List Action) :
    Owned config (reached config actions) ∧ Settled config (reached config actions) ∧
      Closed config (reached config actions) := by
  refine reached_invariant config (P := fun s => Settled config s ∧ Closed config s)
    ⟨⟨counted_init config, chained_init⟩, closed_init config⟩ ?_ actions
  intro s s' howned ⟨hsettled, h⟩ hstep
  refine ⟨hsettled.step howned hstep, ?_⟩
  rcases hstep.shape with hquiet | ⟨call, submission, hcall, hrouted, hopen, hroom, rfl⟩ |
    ⟨w, t, rest, hqueue, rfl⟩ | ⟨w, t, effect, hholding, hmoves, rfl⟩
  · exact h.quiet hquiet
  · have hquiet : Quiet s { s with submissions := Function.update s.submissions call none } :=
      ⟨rfl, rfl, rfl, rfl, rfl, rfl, rfl, rfl, Or.inl rfl⟩
    exact (h.quiet hquiet).admitTask (howned.forget call) (hsettled.counted.quiet hquiet) submission
  · exact h.pop
  · exact h.work howned hsettled.counted hholding hmoves

/-! ## Every run can be finished -/

/-- The steps a lane has still in front of it, at most. -/
def stepsLeft (task : Task) : Stage → Nat
  | .queued => 9 + task.hotPredecessors.length
  | .waiting predecessors => 8 + predecessors.length
  | stage => 9 - progress stage

/-- The steps the workers have still to do. -/
def remainingSteps (config : Config) (s : Executor) : Nat :=
  ((List.range s.tasks.length).map fun t =>
    ((lanes config (s.task t)).map fun lane => stepsLeft (s.task t) (s.stage t lane)).sum).sum

/-- One lane gets on, the others stay. -/
theorem remainingSteps_lt {s' : Executor} {t : Nat} {lane : Lane}
    (htasks : s'.tasks = s.tasks) (hlane : HasLane config s t lane)
    (hstage : ∀ t' lane', ¬ (t' = t ∧ lane' = lane) → s'.stage t' lane' = s.stage t' lane')
    (hless : stepsLeft (s.task t) (s'.stage t lane) < stepsLeft (s.task t) (s.stage t lane)) :
    remainingSteps config s' < remainingSteps config s := by
  have htask : s'.task = s.task := funext fun t => by
    rw [Executor.task, htasks, Executor.task]
  have hle : ∀ t' lane', stepsLeft (s.task t') (s'.stage t' lane') ≤
      stepsLeft (s.task t') (s.stage t' lane') := by
    intro t' lane'
    by_cases hsame : t' = t ∧ lane' = lane
    · obtain ⟨rfl, rfl⟩ := hsame
      exact Nat.le_of_lt hless
    · rw [hstage t' lane' hsame]
  rw [remainingSteps, remainingSteps, htasks, htask]
  refine List.sum_lt_sum _ _ (fun t' _ => List.sum_le_sum fun lane' _ => hle t' lane')
    ⟨t, List.mem_range.mpr hlane.1, ?_⟩
  exact List.sum_lt_sum _ _ (fun lane' _ => hle t lane') ⟨lane, hlane.2, hless⟩

/-- A step of a worker leaves less to do. -/
theorem Moves.stepsLeft_lt {t : Nat} {lane : Lane} {effect : Effect} (h : Moves s t lane effect)
    (task : Task) : stepsLeft task effect.stage < stepsLeft task (s.stage t lane) := by
  cases h with
  | waited hstage | start hstage | hotReturn _ hstage | coldReturn _ hstage | order hstage
  | answer _ _ hstage | announce hstage | merge _ _ hstage | countLast hstage | count hstage
  | finish hstage | release hstage =>
      rw [hstage]
      simp [stepsLeft, progress]

theorem popped_stepsLeft_lt (s : Executor) (t : Nat) (lane : Lane) :
    stepsLeft (s.task t) (popped s t lane) < stepsLeft (s.task t) .queued := by
  cases lane with
  | hot => exact Nat.add_lt_add_right (by decide) _
  | cold index =>
      show 8 < 9 + _
      omega

/-- A worker with a step has one that brings the end nearer. -/
theorem CanMove.advance {w : Worker} (h : CanMove config s w) (howned : Owned config s) :
    ∃ action, action.byWorker = true ∧
      Stepped config s (perform config s action) ∧
      (perform config s action).tasks = s.tasks ∧
      remainingSteps config (perform config s action) < remainingSteps config s := by
  rcases h with hpop | hwork
  · obtain ⟨s', hstep⟩ := Option.isSome_iff_exists.mp hpop
    have hperform : perform config s (.pop w) = s' := by rw [perform, hstep]; rfl
    have hstepped := step_cases howned.fits hstep
    obtain ⟨t, rest, hstarted, hfree, hexited, hqueue, rfl⟩ := step_pop hstep
    have hmem : t ∈ s.queue w.lane := by
      rw [hqueue]
      exact List.mem_cons_self ..
    obtain ⟨hlane, hqueued⟩ := (howned.queued w.lane t).mp hmem
    have htasks : (afterPop s w t).tasks = s.tasks := (popQueue_frame s w.lane).1
    refine ⟨.pop w, rfl, ?_⟩
    rw [hperform]
    refine ⟨hstepped, htasks, remainingSteps_lt htasks hlane ?_ ?_⟩
    · exact fun t' lane' hne => setStage_other hne _
    · rw [afterPop_stage_self, hqueued]
      exact popped_stepsLeft_lt s t w.lane
  · have hanswer : Answers w.lane (.threw none) := by
      cases w.lane with
      | hot => trivial
      | cold index => trivial
    obtain ⟨s', hstep⟩ := Option.isSome_iff_exists.mp (hwork (.threw none) hanswer)
    have hperform : perform config s (.work w (.threw none)) = s' := by rw [perform, hstep]; rfl
    have hstepped := step_cases howned.fits hstep
    obtain ⟨t, effect, hholding, hmoves, rfl⟩ := step_work howned.fits hstep
    obtain ⟨-, hlane, -⟩ := howned.holds w t hholding
    refine ⟨.work w (.threw none), rfl, ?_⟩
    rw [hperform]
    refine ⟨hstepped, rfl, remainingSteps_lt rfl hlane ?_ ?_⟩
    · exact fun t' lane' hne => setStage_other hne _
    · rw [applyEffect_stage_self]
      exact Moves.stepsLeft_lt hmoves _

/-- Steps of workers alone bring every lane to its end. -/
theorem exists_finish (howned : Owned config s) (hsettled : Settled config s) :
    ∃ more : List Action, (∀ action ∈ more, action.byWorker = true) ∧
      Settled config (Transition.run (perform config) s more) ∧
      (Transition.run (perform config) s more).tasks = s.tasks ∧
      ∀ t lane, HasLane config s t lane →
        (Transition.run (perform config) s more).stage t lane = .done := by
  induction hn : remainingSteps config s using Nat.strong_induction_on generalizing s with
  | _ n ih =>
      by_cases hopen : ∃ t lane, HasLane config s t lane ∧ s.stage t lane ≠ .done
      · obtain ⟨t, lane, hlane, hstage⟩ := hopen
        obtain ⟨w, -, hmove⟩ := hsettled.canMove howned hlane hstage
        obtain ⟨action, hworker, hstepped, htasks, hless⟩ := CanMove.advance hmove howned
        obtain ⟨more, hmore, hend, htasksEnd, hdone⟩ :=
          ih _ (hn ▸ hless) (howned.step hstepped) (hsettled.step howned hstepped) rfl
        refine ⟨action :: more, ?_, hend, htasksEnd.trans htasks, ?_⟩
        · rintro a (_ | ⟨_, ha⟩)
          · exact hworker
          · exact hmore a ha
        · intro t' lane' hlane'
          refine hdone t' lane' ?_
          rw [HasLane, Executor.task, htasks]
          exact hlane'
      · refine ⟨[], fun a ha => absurd ha List.not_mem_nil, hsettled, rfl, ?_⟩
        intro t lane hlane
        by_contra hstage
        exact hopen ⟨t, lane, hlane, hstage⟩

/-- A task all lanes of which are done has been completed and released. -/
theorem Counted.complete (h : Counted config s) {t : Nat}
    (hdone : ∀ lane ∈ lanes config (s.task t), s.stage t lane = .done) :
    s.log.countP (completes t) = 1 ∧ s.log.count (.released t) = 1 ∧
      (s.states t).completion.isSome = true ∧ (s.states t).hotCompletion.isSome = true := by
  have hkind : ∀ kind : Stage → Bool, kind .done = false → stageCount config s t kind = 0 :=
    fun kind hkind => stageCount_eq_zero.mpr fun lane hlane => by rw [hdone lane hlane, hkind]
  have hcompletion := h.completion t
  rw [hkind isFinishing rfl, hkind isOpen rfl, if_pos rfl] at hcompletion
  have hreleased := h.released t
  rw [hkind isReleasing rfl] at hreleased
  refine ⟨hcompletion, by omega, (h.completionSet t).mpr (by omega), ?_⟩
  refine (h.hotCompletionSet t).mpr ((h.mem_log (e := .hotCompleted t) rfl).mpr ?_)
  rw [hdone .hot (hot_mem_lanes config _)]
  decide

/-- Where all workers have left, nothing is left to do. -/
theorem done_of_exited (howned : Owned config s)
    (hexited : ∀ w, started config w = true → s.exited w = true) {t : Nat} {lane : Lane}
    (hlane : HasLane config s t lane) : s.stage t lane = .done := by
  by_contra hopen
  by_cases hqueued : s.stage t lane = .queued
  · have hempty := (howned.exited _ (hexited _ (workerOf_started hlane.2))).2.2
    rw [workerOf_lane] at hempty
    have hmem := (howned.queued lane t).mpr ⟨hlane, hqueued⟩
    rw [hempty] at hmem
    cases hmem
  · obtain ⟨w, -, hholding⟩ := howned.held t lane ⟨hqueued, hopen⟩
    have hnone := (howned.exited w (hexited w (howned.holds w t hholding).1)).1
    rw [hnone] at hholding
    cases hholding

/-! ## The contract -/

/-- What a refused call leaves alone. -/
structure Untouched (s s' : Executor) : Prop where
  coldQueues : s'.coldQueues = s.coldQueues
  hotQueue : s'.hotQueue = s.hotQueue
  tails : s'.sequenceHotTails = s.sequenceHotTails
  pending : s'.pendingTasks = s.pendingTasks
  tasks : s'.tasks = s.tasks

/-- The step refuses a call. -/
def Refuses (s s' : Executor) : Prop := ∃ call result, s'.log = s.log ++ [.rejected call result]

/-- A refused submission changes nothing. -/
theorem untouched_of_refuses (howned : Owned config s) {action : Action} {s' : Executor}
    (hstep : IngestExecutor.step config s action = some s') (hrefuses : Refuses s s') :
    Untouched s s' := by
  obtain ⟨call, result, hlog⟩ := hrefuses
  rcases (step_cases howned.fits hstep).shape with hquiet |
    ⟨call', submission, -, -, -, -, rfl⟩ | ⟨w, t, rest, -, rfl⟩ | ⟨w, t, effect, -, hmoves, rfl⟩
  · exact ⟨hquiet.coldQueues, hquiet.hotQueue, hquiet.tails, hquiet.pending, hquiet.tasks⟩
  · have hlast := List.append_cancel_left
      (show s.log ++ [Event.accepted s.tasks.length] = s.log ++ [.rejected call result] from hlog)
    cases hlast
  · have hsame : (afterPop s w t).log = s.log := by
      rw [afterPop]
      cases w.lane with
      | hot => rfl
      | cold index => rfl
    rw [hsame] at hlog
    exact absurd (List.self_eq_append_right.mp hlog) (List.cons_ne_nil _ _)
  · have hevents := List.append_cancel_left
      (show s.log ++ effect.events = s.log ++ [.rejected call result] from hlog)
    generalize w.lane = lane at hmoves
    cases hmoves <;> cases hevents

/-- An incomplete call is refused. -/
theorem refuses_incomplete {call : Nat} {request : Request} (hfree : s.submissions call = none)
    (hincomplete : request.resolved = none ∨ request.coldWrite = false ∨
      request.hotUpdate = false) :
    ∃ s', IngestExecutor.step config s (.submit call request) = some s' ∧ Refuses s s' := by
  simp only [IngestExecutor.step, hfree]
  cases hresolved : request.resolved with
  | none => exact ⟨_, rfl, call, _, rfl⟩
  | some data =>
      have hmissing : (request.coldWrite && request.hotUpdate) = false := by
        rw [hresolved] at hincomplete
        rcases hincomplete with hno | hcold | hhot
        · cases hno
        · rw [hcold, Bool.false_and]
        · rw [hhot, Bool.and_false]
      simp only [hmissing]
      exact ⟨_, rfl, call, _, rfl⟩

/-- An admission is refused while the executor stops or is full. -/
theorem refuses_full {call : Nat} {submission : Submission}
    (hcall : s.submissions call = some submission) (hrouted : submission.unrouted = [])
    (hclosed : s.stopping = true ∨ config.queueCapacity ≤ s.pendingTasks) :
    ∃ s', IngestExecutor.step config s (.admission call) = some s' ∧ Refuses s s' := by
  simp only [IngestExecutor.step, hcall, hrouted, ne_eq, not_true_eq_false, if_false]
  have hreject : ∃ result, rejection config submission.data.points.length
      { s with submissions := Function.update s.submissions call none } = some result := by
    rw [rejection]
    by_cases hstopping : s.stopping = true
    · exact ⟨_, if_pos hstopping⟩
    · exact ⟨_, (if_neg hstopping).trans (if_pos (hclosed.resolve_left hstopping))⟩
  obtain ⟨result, hresult⟩ := hreject
  rw [hresult]
  exact ⟨_, rfl, call, result, rfl⟩

/-- Every lane runs once, and the last one completes the task. -/
structure CompletesOnce (config : Config) (s : Executor) : Prop where
  /-- No callback runs twice, and none but those of the task's lanes. -/
  atMostOnce : ∀ t lane, s.log.count (.started t lane) ≤ 1 ∧ s.log.count (.returned t lane) ≤ 1
  onlyLanes : ∀ t lane, ¬ HasLane config s t lane → Event.started t lane ∉ s.log
  /-- Where the completion is set, all of them have run. -/
  allLanes : ∀ t lane, HasLane config s t lane → (s.states t).completion.isSome = true →
    s.log.count (.started t lane) = 1 ∧ s.log.count (.returned t lane) = 1
  promisesOnce : ∀ t, s.log.count (.hotCompleted t) ≤ 1 ∧ s.log.countP (completes t) ≤ 1
  promisesLogged : ∀ t, ((s.states t).completion.isSome = true ↔
      0 < s.log.countP (completes t)) ∧
    ((s.states t).hotCompletion.isSome = true ↔ Event.hotCompleted t ∈ s.log)
  /-- The completion is set behind the last of the lanes, by that lane. -/
  byLastLane : Licensed (ByLastLane config s.task) s.log
  lastLaneCompletes : ∀ t, (∀ lane ∈ lanes config (s.task t), Event.finished t lane ∈ s.log) →
    (s.states t).completion.isSome = true ∨
      ∃ lane result, s.stage t lane = .finishing result
  pending : s.pendingTasks =
    (List.range s.tasks.length).countP fun t => decide (Event.released t ∉ s.log)
  bounded : s.pendingTasks ≤ config.queueCapacity
  refusals : ∀ action s', IngestExecutor.step config s action = some s' → Refuses s s' →
    Untouched s s'
  refusesIncomplete : ∀ call request, s.submissions call = none →
    (request.resolved = none ∨ request.coldWrite = false ∨ request.hotUpdate = false) →
      ∃ s', IngestExecutor.step config s (.submit call request) = some s' ∧ Refuses s s'
  refusesFull : ∀ call submission, s.submissions call = some submission →
    submission.unrouted = [] → (s.stopping = true ∨ config.queueCapacity ≤ s.pendingTasks) →
      ∃ s', IngestExecutor.step config s (.admission call) = some s' ∧ Refuses s s'
  /-- The destructor joins all workers. -/
  destroyed : (∀ w, started config w = true → s.exited w = true) →
    ∀ t < s.tasks.length, (s.states t).completion.isSome = true ∧ Event.released t ∈ s.log
  /-- Steps of workers alone complete everything that has been accepted. -/
  finishes : ∃ more : List Action, (∀ action ∈ more, action.byWorker = true) ∧
    ∀ t < s.tasks.length,
      ((Transition.run (perform config) s more).states t).completion.isSome = true

/-- Once the completion is set, every lane of the task has been counted off. -/
theorem Counted.closed_of_completion (h : Counted config s) {t : Nat}
    (hset : (s.states t).completion.isSome = true) {lane : Lane}
    (hlane : lane ∈ lanes config (s.task t)) : 7 ≤ progress (s.stage t lane) := by
  have hpos := (h.completionSet t).mp hset
  have hcompletion := h.completion t
  have hzero : stageCount config s t isOpen = 0 := by
    by_contra hopen
    rw [if_neg hopen] at hcompletion
    omega
  have hclosed := stageCount_eq_zero.mp hzero lane hlane
  simpa [isOpen] using hclosed

/-- **ACCEPTED TASKS COMPLETE ONCE**, after every interleaving of calls, workers and
    the destructor. -/
theorem accepted_tasks_complete_once (config : Config) (actions : List Action) :
    CompletesOnce config (reached config actions) := by
  obtain ⟨howned, hsettled, hclosed⟩ := reached_closed config actions
  have h := hsettled.counted
  have honce : ∀ e t lane k, milestone e = some (t, lane, k) →
      (reached config actions).log.count e ≤ 1 := by
    intro e t lane k he
    rw [h.once e t lane k he]
    split <;> omega
  refine ⟨?_, ?_, ?_, ?_, ?_, hclosed.completed, ?_, h.pending, h.bounded, ?_, ?_, ?_, ?_, ?_⟩
  · exact fun t lane => ⟨honce _ t lane 2 rfl, honce _ t lane 3 rfl⟩
  · intro t lane hnot hmem
    have hbegun := (h.mem_log (e := .started t lane) rfl).mp hmem
    rw [howned.outside t lane hnot] at hbegun
    exact absurd (show 2 ≤ 0 from hbegun) (by decide)
  · intro t lane hlane hset
    have hover := Counted.closed_of_completion h hset hlane.2
    rw [h.once (.started t lane) t lane 2 rfl, h.once (.returned t lane) t lane 3 rfl,
      if_pos (by omega), if_pos (by omega)]
    exact ⟨rfl, rfl⟩
  · intro t
    refine ⟨honce _ t .hot 6 rfl, ?_⟩
    have hcompletion := h.completion t
    grind
  · exact fun t => ⟨h.completionSet t, h.hotCompletionSet t⟩
  · intro t hall
    have hopen : stageCount config (reached config actions) t isOpen = 0 := by
      refine stageCount_eq_zero.mpr fun lane hlane => ?_
      have hover := (h.mem_log (e := .finished t lane) rfl).mp (hall lane hlane)
      rw [isOpen, decide_eq_false_iff_not]
      omega
    have hcompletion := h.completion t
    rw [if_pos hopen] at hcompletion
    by_cases hset : 0 < (reached config actions).log.countP (completes t)
    · exact Or.inl ((h.completionSet t).mpr hset)
    · -- the last lane stands in front of the promise
      have hfinishing : stageCount config (reached config actions) t isFinishing ≠ 0 := by omega
      refine Or.inr ?_
      by_contra hnone
      refine hfinishing (stageCount_eq_zero.mpr fun lane _ => ?_)
      cases hstage : (reached config actions).stage t lane with
      | finishing result => exact absurd ⟨lane, result, hstage⟩ hnone
      | _ => rfl
  · exact fun action s' hstep hrefuses => untouched_of_refuses howned hstep hrefuses
  · exact fun call request hfree hincomplete => refuses_incomplete hfree hincomplete
  · exact fun call submission hcall hrouted hfull => refuses_full hcall hrouted hfull
  · intro hexited t ht
    obtain ⟨-, hreleased, hset, -⟩ := Counted.complete h fun lane hlane =>
      done_of_exited howned hexited ⟨ht, hlane⟩
    exact ⟨hset, List.count_pos_iff.mp (by omega)⟩
  · obtain ⟨more, hmore, hend, htasks, hdone⟩ := exists_finish howned hsettled
    refine ⟨more, hmore, fun t ht => ?_⟩
    refine (Counted.complete hend.counted fun lane hlane => hdone t lane ⟨ht, ?_⟩).2.2.1
    rwa [Executor.task, htasks] at hlane

end ExecutorCompletion
