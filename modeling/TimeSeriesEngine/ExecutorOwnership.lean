import TimeSeriesEngine.IngestExecutor

/-!
# Who works on what

Every lane of an admitted task is in its queue, in the hands of one worker, or
done; queues are served in order of admission; a worker leaves only when its queue
stays empty.  `Owned` says so, and holds after every interleaving (`reached_owned`).

`Moves` lists what one step of a worker can do, once for all invariants
(`laneEffect_cases`).
-/

namespace ExecutorOwnership

open TseTypes KeyedTable IngestExecutor Transition

variable {config : Config} {s : Executor}

/-- The task has been admitted and has the lane. -/
def HasLane (config : Config) (s : Executor) (t : Nat) (lane : Lane) : Prop :=
  t < s.tasks.length ∧ lane ∈ lanes config (s.task t)

/-- Popped and not done. -/
def Active (stage : Stage) : Prop := stage ≠ .queued ∧ stage ≠ .done

/-- The stages a lane can be in: a cold one has no predecessors and no promises of
    its own, a hot one no storage result. -/
def Fits : Lane → Stage → Prop
  | .hot, .merging _ => False
  | .cold _, .waiting predecessors => predecessors = []
  | .cold _, .returned _ => False
  | .cold _, .ordered _ => False
  | .cold _, .announcing _ => False
  | _, _ => True

/-- Each lane of a task is in its queue, with one worker, or done. -/
structure Owned (config : Config) (s : Executor) : Prop where
  queued : ∀ lane t, t ∈ s.queue lane ↔ HasLane config s t lane ∧ s.stage t lane = .queued
  sorted : ∀ lane, (s.queue lane).Pairwise (· < ·)
  fifo : ∀ lane a b, a < b → HasLane config s a lane → s.stage b lane ≠ .queued →
    s.stage a lane ≠ .queued
  fits : ∀ t lane, Fits lane (s.stage t lane)
  outside : ∀ t lane, ¬ HasLane config s t lane → s.stage t lane = .queued
  holds : ∀ w t, s.holding w = some t →
    started config w = true ∧ HasLane config s t w.lane ∧ Active (s.stage t w.lane)
  held : ∀ t lane, Active (s.stage t lane) → ∃ w, w.lane = lane ∧ s.holding w = some t
  single : ∀ w w' t, w.lane = w'.lane → s.holding w = some t → s.holding w' = some t → w = w'
  exited : ∀ w, s.exited w = true →
    s.holding w = none ∧ s.stopping = true ∧ s.queue w.lane = []

/-! ## Reading the state -/

theorem setStage_self (stage : Nat → Lane → Stage) (t : Nat) (lane : Lane) (new : Stage) :
    setStage stage t lane new t lane = new :=
  if_pos ⟨rfl, rfl⟩

theorem setStage_other {stage : Nat → Lane → Stage} {t t' : Nat} {lane lane' : Lane}
    (h : ¬ (t' = t ∧ lane' = lane)) (new : Stage) :
    setStage stage t lane new t' lane' = stage t' lane' :=
  if_neg h

theorem hot_mem_lanes (config : Config) (task : Task) : Lane.hot ∈ lanes config task :=
  List.mem_cons_self ..

theorem cold_mem_lanes (config : Config) (task : Task) (index : Nat) :
    Lane.cold index ∈ lanes config task ↔
      index < config.coldWorkerCount ∧ (task.coldBatches index).points ≠ [] := by
  simp [lanes]

theorem lanes_nodup (config : Config) (task : Task) : (lanes config task).Nodup := by
  refine List.nodup_cons.mpr ⟨by simp, ?_⟩
  refine List.Nodup.map (fun a b h => by cases h; rfl) ?_
  exact List.nodup_range.filter _

/-- An admission leaves the earlier tasks as they are. -/
theorem task_append {tasks : List Task} {task : Task} {t : Nat} (h : t < tasks.length) :
    (tasks ++ [task]).getD t {} = tasks.getD t {} := by
  rw [List.getD_eq_getElem?_getD, List.getD_eq_getElem?_getD, List.getElem?_append_left h]

theorem task_append_new (tasks : List Task) (task : Task) :
    (tasks ++ [task]).getD tasks.length {} = task := by
  rw [List.getD_eq_getElem?_getD, List.getElem?_append_right (Nat.le_refl _)]
  simp

theorem queue_popQueue (s : Executor) (lane : Lane) :
    (popQueue s lane).queue lane = (s.queue lane).tail := by
  cases lane with
  | hot => rfl
  | cold index => exact Function.update_self ..

/-- The other queues stay. -/
theorem queue_popQueue_other (s : Executor) {lane lane' : Lane} (h : lane' ≠ lane) :
    (popQueue s lane).queue lane' = s.queue lane' := by
  cases lane with
  | hot =>
      cases lane' with
      | hot => exact absurd rfl h
      | cold index' => rfl
  | cold index =>
      cases lane' with
      | hot => rfl
      | cold index' =>
          have hne : index' ≠ index := fun e => h (congrArg Lane.cold e)
          exact Function.update_of_ne hne _ _

/-- Everything but the queue of the lane is as it was. -/
theorem popQueue_frame (s : Executor) (lane : Lane) :
    (popQueue s lane).tasks = s.tasks ∧ (popQueue s lane).stage = s.stage ∧
      (popQueue s lane).holding = s.holding ∧ (popQueue s lane).exited = s.exited ∧
      (popQueue s lane).stopping = s.stopping := by
  cases lane with
  | hot => exact ⟨rfl, rfl, rfl, rfl, rfl⟩
  | cold index => exact ⟨rfl, rfl, rfl, rfl, rfl⟩

/-! ## The worker's step -/

/-- What one step of the worker of a lane can do. -/
inductive Moves (s : Executor) (t : Nat) : Lane → Effect → Prop where
  | waited {predecessor : Nat} {rest : List Nat}
      (hstage : s.stage t .hot = .waiting (predecessor :: rest))
      (hdone : (s.states predecessor).hotOrderCompleted = true) :
      Moves s t .hot { stage := .waiting rest, state := s.states t }
  | start {lane : Lane} (hstage : s.stage t lane = .waiting []) :
      Moves s t lane { stage := .calling, state := s.states t, events := [.started t lane] }
  | hotReturn (result : IngestPipelineResult) (hstage : s.stage t .hot = .calling) :
      Moves s t .hot
        { stage := .returned result, state := s.states t, events := [.returned t .hot] }
  | coldReturn {index : Nat} (result : OperationResult)
      (hstage : s.stage t (.cold index) = .calling) :
      Moves s t (.cold index)
        { stage := .merging result, state := s.states t, events := [.returned t (.cold index)] }
  | order {result : IngestPipelineResult} (hstage : s.stage t .hot = .returned result) :
      Moves s t .hot
        { stage := .ordered result, state := { s.states t with hotOrderCompleted := true } }
  | answer {result : IngestPipelineResult} (answered merged : IngestPipelineResult)
      (hstage : s.stage t .hot = .ordered result) :
      Moves s t .hot
        { stage := .announcing answered, state := { s.states t with result := merged } }
  | announce {result : IngestPipelineResult} (hstage : s.stage t .hot = .announcing result) :
      Moves s t .hot
        { stage := .counting, state := { s.states t with hotCompletion := some result }
          events := [.hotCompleted t] }
  | merge {index : Nat} {result : OperationResult} (merged : IngestPipelineResult)
      (initialized : Bool) (hstage : s.stage t (.cold index) = .merging result) :
      Moves s t (.cold index)
        { stage := .counting
          state := { s.states t with result := merged, storageInitialized := initialized } }
  | countLast {lane : Lane} (hstage : s.stage t lane = .counting)
      (hlast : (s.states t).remainingLanes - 1 = 0) :
      Moves s t lane
        { stage := .finishing (s.states t).result
          state := { s.states t with remainingLanes := (s.states t).remainingLanes - 1 }
          events := [.finished t lane] }
  | count {lane : Lane} (hstage : s.stage t lane = .counting)
      (hmore : (s.states t).remainingLanes - 1 ≠ 0) :
      Moves s t lane
        { stage := .done
          state := { s.states t with remainingLanes := (s.states t).remainingLanes - 1 }
          events := [.finished t lane] }
  | finish {lane : Lane} {result : IngestPipelineResult}
      (hstage : s.stage t lane = .finishing result) :
      Moves s t lane
        { stage := .releasing, state := { s.states t with completion := some result }
          events := [.completed t lane] }
  | release {lane : Lane} (hstage : s.stage t lane = .releasing) :
      Moves s t lane
        { stage := .done, state := s.states t, events := [.released t], releases := true }

/-- What a worker can do with its task. -/
theorem laneEffect_cases {t : Nat} {lane : Lane} {callback : Callback} {effect : Effect}
    (hfits : Fits lane (s.stage t lane)) (h : laneEffect s t lane callback = some effect) :
    Moves s t lane effect := by
  simp only [laneEffect] at h
  cases hstage : s.stage t lane with
  | queued => simp [hstage] at h
  | waiting predecessors =>
      cases predecessors with
      | nil =>
          simp only [hstage, Option.some.injEq] at h
          exact h ▸ .start hstage
      | cons predecessor rest =>
          simp only [hstage, Option.ite_none_right_eq_some, Option.some.injEq] at h
          cases lane with
          | hot => exact h.2 ▸ .waited hstage h.1
          | cold index =>
              rw [hstage] at hfits
              cases hfits
  | calling =>
      simp only [hstage] at h
      cases lane with
      | hot =>
          obtain ⟨result, -, rfl⟩ := Option.map_eq_some_iff.mp h
          exact .hotReturn result hstage
      | cold index =>
          obtain ⟨result, -, rfl⟩ := Option.map_eq_some_iff.mp h
          exact .coldReturn result hstage
  | returned result =>
      simp only [hstage, Option.some.injEq] at h
      cases lane with
      | hot => exact h ▸ .order hstage
      | cold index =>
          rw [hstage] at hfits
          exact hfits.elim
  | ordered result =>
      simp only [hstage, Option.some.injEq] at h
      cases lane with
      | hot => exact h ▸ .answer _ _ hstage
      | cold index =>
          rw [hstage] at hfits
          exact hfits.elim
  | announcing result =>
      simp only [hstage, Option.some.injEq] at h
      cases lane with
      | hot => exact h ▸ .announce hstage
      | cold index =>
          rw [hstage] at hfits
          exact hfits.elim
  | merging result =>
      simp only [hstage, Option.some.injEq] at h
      cases lane with
      | hot =>
          rw [hstage] at hfits
          exact hfits.elim
      | cold index => exact h ▸ .merge _ _ hstage
  | counting =>
      simp only [hstage, Option.some.injEq] at h
      by_cases hlast : (s.states t).remainingLanes - 1 = 0
      · rw [if_pos hlast] at h
        exact h ▸ .countLast hstage hlast
      · rw [if_neg hlast] at h
        exact h ▸ .count hstage hlast
  | finishing result =>
      simp only [hstage, Option.some.injEq] at h
      exact h ▸ .finish hstage
  | releasing =>
      simp only [hstage, Option.some.injEq] at h
      exact h ▸ .release hstage
  | done => simp [hstage] at h

/-- A lane in the hands of a worker does not go back to the queue. -/
theorem Moves.not_queued {t : Nat} {lane : Lane} {effect : Effect}
    (h : Moves s t lane effect) : effect.stage ≠ .queued := by
  intro hqueued
  cases h <;> cases hqueued

/-- A stage reached fits its lane. -/
theorem Moves.fits {t : Nat} {lane : Lane} {effect : Effect} (h : Moves s t lane effect) :
    Fits lane effect.stage := by
  cases h with
  | start => cases lane <;> trivial
  | countLast => cases lane <;> trivial
  | count => cases lane <;> trivial
  | finish => cases lane <;> trivial
  | release => cases lane <;> trivial
  | coldReturn => trivial
  | merge => trivial
  | _ => trivial

/-- It was in the hands of the worker. -/
theorem Moves.active {t : Nat} {lane : Lane} {effect : Effect} (h : Moves s t lane effect) :
    Active (s.stage t lane) := by
  cases h with
  | waited hstage => exact ⟨by rw [hstage]; nofun, by rw [hstage]; nofun⟩
  | start hstage => exact ⟨by rw [hstage]; nofun, by rw [hstage]; nofun⟩
  | hotReturn _ hstage => exact ⟨by rw [hstage]; nofun, by rw [hstage]; nofun⟩
  | coldReturn _ hstage => exact ⟨by rw [hstage]; nofun, by rw [hstage]; nofun⟩
  | order hstage => exact ⟨by rw [hstage]; nofun, by rw [hstage]; nofun⟩
  | answer _ _ hstage => exact ⟨by rw [hstage]; nofun, by rw [hstage]; nofun⟩
  | announce hstage => exact ⟨by rw [hstage]; nofun, by rw [hstage]; nofun⟩
  | merge _ _ hstage => exact ⟨by rw [hstage]; nofun, by rw [hstage]; nofun⟩
  | countLast hstage => exact ⟨by rw [hstage]; nofun, by rw [hstage]; nofun⟩
  | count hstage => exact ⟨by rw [hstage]; nofun, by rw [hstage]; nofun⟩
  | finish hstage => exact ⟨by rw [hstage]; nofun, by rw [hstage]; nofun⟩
  | release hstage => exact ⟨by rw [hstage]; nofun, by rw [hstage]; nofun⟩

/-! ## All steps -/

/-- The state after a pop. -/
def afterPop (s : Executor) (w : Worker) (t : Nat) : Executor :=
  { popQueue s w.lane with
    stage := setStage s.stage t w.lane (popped s t w.lane)
    holding := Function.update s.holding w (some t) }

/-- What one step can do. -/
inductive Stepped (config : Config) (s : Executor) : Executor → Prop where
  | submitted {call : Nat} (data : TimeseriesBatch) (hfree : s.submissions call = none) :
      Stepped config s { s with
        submissions := Function.update s.submissions call
          (some { data := data, unrouted := batchSequenceIds data.points }) }
  | refused (call : Nat) (result : OperationResult)
      (submissions : Nat → Option Submission)
      (hsubmissions : ∀ other submission, submissions other = some submission →
        s.submissions other = some submission) :
      Stepped config s { s with
        submissions := submissions
        log := s.log ++ [.rejected call result] }
  | routed {call : Nat} {submission : Submission} {sequenceId : SequenceId}
      {rest : List SequenceId} {writers : Table String Nat} {next writer : Nat}
      (hcall : s.submissions call = some submission)
      (hunrouted : submission.unrouted = sequenceId :: rest)
      (hwriter : writerForSequence config (sequenceKey submission.data.projectId sequenceId)
        s.sequenceWriters s.nextWriterIndex = (writers, next, writer)) :
      Stepped config s { s with
        sequenceWriters := writers
        nextWriterIndex := next
        submissions := Function.update s.submissions call
          (some { submission with
            unrouted := rest
            batchWriters := put sequenceId writer submission.batchWriters }) }
  | admitted {call : Nat} {submission : Submission}
      (hcall : s.submissions call = some submission) (hrouted : submission.unrouted = [])
      (hopen : s.stopping = false) (hroom : s.pendingTasks < config.queueCapacity) :
      Stepped config s
        (admitTask config submission { s with submissions := Function.update s.submissions call none })
  | popped {w : Worker} {t : Nat} {rest : List Nat} (hstarted : started config w = true)
      (hfree : s.holding w = none) (hexited : s.exited w = false)
      (hqueue : s.queue w.lane = t :: rest) : Stepped config s (afterPop s w t)
  | worked {w : Worker} {t : Nat} {effect : Effect} (hholding : s.holding w = some t)
      (hmoves : Moves s t w.lane effect) : Stepped config s (applyEffect s w t effect)
  | left {w : Worker} (hfree : s.holding w = none) (hstopping : s.stopping = true)
      (hqueue : s.queue w.lane = []) :
      Stepped config s { s with exited := Function.update s.exited w true }
  | stopped : Stepped config s { s with stopping := true }

/-- A submission is admitted while the executor is open and has room. -/
theorem rejection_eq_none {count : Nat} (h : rejection config count s = none) :
    s.stopping = false ∧ s.pendingTasks < config.queueCapacity := by
  rw [rejection] at h
  split at h
  · cases h
  rename_i hopen
  split at h
  · cases h
  rename_i hroom
  exact ⟨by simpa using hopen, by omega⟩

/-- When a worker takes a task, and what follows. -/
theorem step_pop {w : Worker} {s' : Executor} (h : step config s (.pop w) = some s') :
    ∃ t rest, started config w = true ∧ s.holding w = none ∧ s.exited w = false ∧
      s.queue w.lane = t :: rest ∧ s' = afterPop s w t := by
  simp only [step] at h
  by_cases hidle : idle config s w = true
  · rw [if_pos hidle] at h
    simp only [idle, Bool.and_eq_true, Option.isNone_iff_eq_none, Bool.not_eq_true'] at hidle
    obtain ⟨⟨hstarted, hfree⟩, hexited⟩ := hidle
    cases hqueue : s.queue w.lane with
    | nil => simp [hqueue] at h
    | cons t rest =>
        simp only [hqueue, Option.some.injEq] at h
        exact ⟨t, rest, hstarted, hfree, hexited, rfl, h.symm⟩
  · rw [if_neg hidle] at h
    cases h

/-- When a worker moves its task, and what follows. -/
theorem step_work (hfits : ∀ t lane, Fits lane (s.stage t lane)) {w : Worker}
    {callback : Callback} {s' : Executor} (h : step config s (.work w callback) = some s') :
    ∃ t effect, s.holding w = some t ∧ Moves s t w.lane effect ∧ s' = applyEffect s w t effect := by
  simp only [step] at h
  cases hholding : s.holding w with
  | none => simp [hholding] at h
  | some t =>
      simp only [hholding] at h
      obtain ⟨effect, heffect, rfl⟩ := Option.map_eq_some_iff.mp h
      exact ⟨t, effect, rfl, laneEffect_cases (hfits t w.lane) heffect, rfl⟩

/-- Every step is one of these, and one that no worker takes changes no task's state
    but the one of a task it admits. -/
theorem step_outcome (hfits : ∀ t lane, Fits lane (s.stage t lane)) {action : Action}
    {s' : Executor} (h : step config s action = some s') :
    Stepped config s s' ∧ ((∀ w callback, action ≠ .work w callback) →
      s'.states = s.states ∨ ∃ submission, s'.states = (admitTask config submission s).states) := by
  cases action with
  | submit call request =>
      simp only [step] at h
      cases hcall : s.submissions call with
      | some submission => simp [hcall] at h
      | none =>
          cases hresolved : request.resolved with
          | none =>
              simp only [hcall, hresolved, Option.some.injEq] at h
              exact h ▸ ⟨.refused call _ s.submissions fun _ _ => id, fun _ => Or.inl rfl⟩
          | some data =>
              simp only [hcall, hresolved] at h
              split at h
              · exact Option.some.inj h ▸ ⟨.submitted data hcall, fun _ => Or.inl rfl⟩
              · exact Option.some.inj h ▸
                  ⟨.refused call _ s.submissions fun _ _ => id, fun _ => Or.inl rfl⟩
  | route call =>
      simp only [step] at h
      cases hcall : s.submissions call with
      | none => simp [hcall] at h
      | some submission =>
          cases hunrouted : submission.unrouted with
          | nil => simp [hcall, hunrouted] at h
          | cons sequenceId rest =>
              simp only [hcall, hunrouted, Option.some.injEq] at h
              exact h ▸ ⟨.routed hcall hunrouted rfl, fun _ => Or.inl rfl⟩
  | admission call =>
      simp only [step] at h
      cases hcall : s.submissions call with
      | none => simp [hcall] at h
      | some submission =>
          simp only [hcall] at h
          split at h
          · cases h
          rename_i hrouted
          have hgone : ∀ other submission',
              Function.update s.submissions call none other = some submission' →
                s.submissions other = some submission' := by
            intro other submission' hother
            by_cases hne : other = call
            · rw [hne, Function.update_self] at hother
              cases hother
            · rwa [Function.update_of_ne hne] at hother
          cases hreject : rejection config submission.data.points.length
              { s with submissions := Function.update s.submissions call none } with
          | some result =>
              simp only [hreject, Option.some.injEq] at h
              exact h ▸ ⟨.refused call result _ hgone, fun _ => Or.inl rfl⟩
          | none =>
              simp only [hreject, Option.some.injEq] at h
              obtain ⟨hopen, hroom⟩ := rejection_eq_none hreject
              exact h ▸ ⟨.admitted hcall (by simpa using hrouted) hopen hroom,
                fun _ => Or.inr ⟨submission, rfl⟩⟩
  | pop w =>
      obtain ⟨t, rest, hstarted, hfree, hexited, hqueue, rfl⟩ := step_pop h
      refine ⟨.popped hstarted hfree hexited hqueue, fun _ => Or.inl ?_⟩
      cases w <;> rfl
  | work w callback =>
      obtain ⟨t, effect, hholding, hmoves, rfl⟩ := step_work hfits h
      exact ⟨.worked hholding hmoves, fun hwork => absurd rfl (hwork w callback)⟩
  | exit w =>
      simp only [step] at h
      by_cases hidle : (idle config s w && s.stopping && (s.queue w.lane).isEmpty) = true
      · rw [if_pos hidle] at h
        simp only [idle, Bool.and_eq_true, Option.isNone_iff_eq_none, Bool.not_eq_true',
          List.isEmpty_iff] at hidle
        obtain ⟨⟨⟨⟨-, hfree⟩, -⟩, hstopping⟩, hqueue⟩ := hidle
        exact Option.some.inj h ▸ ⟨.left hfree hstopping hqueue, fun _ => Or.inl rfl⟩
      · rw [if_neg hidle] at h
        cases h
  | stop => exact Option.some.inj h ▸ ⟨.stopped, fun _ => Or.inl rfl⟩

theorem step_cases (hfits : ∀ t lane, Fits lane (s.stage t lane)) {action : Action}
    {s' : Executor} (h : step config s action = some s') : Stepped config s s' :=
  (step_outcome hfits h).1

/-- A step that touches no task: calls that come in, are routed or are refused, the
    executor stopping, a worker leaving. -/
structure Quiet (s s' : Executor) : Prop where
  tasks : s'.tasks = s.tasks
  states : s'.states = s.states
  stage : s'.stage = s.stage
  holding : s'.holding = s.holding
  coldQueues : s'.coldQueues = s.coldQueues
  hotQueue : s'.hotQueue = s.hotQueue
  tails : s'.sequenceHotTails = s.sequenceHotTails
  pending : s'.pendingTasks = s.pendingTasks
  log : s'.log = s.log ∨ ∃ call result, s'.log = s.log ++ [.rejected call result]

/-- A step is quiet, an admission, a pop or the step of a worker. -/
theorem Stepped.shape {s' : Executor} (h : Stepped config s s') :
    Quiet s s' ∨
      (∃ call submission, s.submissions call = some submission ∧ submission.unrouted = [] ∧
        s.stopping = false ∧ s.pendingTasks < config.queueCapacity ∧
        s' = admitTask config submission
          { s with submissions := Function.update s.submissions call none }) ∨
      (∃ w t rest, s.queue w.lane = t :: rest ∧ s' = afterPop s w t) ∨
      ∃ w t effect, s.holding w = some t ∧ Moves s t w.lane effect ∧
        s' = applyEffect s w t effect := by
  cases h with
  | submitted data hfree => exact Or.inl ⟨rfl, rfl, rfl, rfl, rfl, rfl, rfl, rfl, Or.inl rfl⟩
  | refused call result =>
      exact Or.inl ⟨rfl, rfl, rfl, rfl, rfl, rfl, rfl, rfl, Or.inr ⟨call, result, rfl⟩⟩
  | routed hcall hunrouted hwriter =>
      exact Or.inl ⟨rfl, rfl, rfl, rfl, rfl, rfl, rfl, rfl, Or.inl rfl⟩
  | @admitted call submission hcall hrouted hopen hroom =>
      exact Or.inr (Or.inl ⟨call, submission, hcall, hrouted, hopen, hroom, rfl⟩)
  | @popped w t rest hstarted hfree hexited hqueue =>
      exact Or.inr (Or.inr (Or.inl ⟨w, t, rest, hqueue, rfl⟩))
  | @worked w t effect hholding hmoves =>
      exact Or.inr (Or.inr (Or.inr ⟨w, t, effect, hholding, hmoves, rfl⟩))
  | left hfree hstopping hqueue =>
      exact Or.inl ⟨rfl, rfl, rfl, rfl, rfl, rfl, rfl, rfl, Or.inl rfl⟩
  | stopped => exact Or.inl ⟨rfl, rfl, rfl, rfl, rfl, rfl, rfl, rfl, Or.inl rfl⟩

/-! ## Admission -/

/-- The sequences of a submission, by their keys. -/
def submissionKeys (submission : Submission) : List String :=
  (batchSequenceIds submission.data.points).map (sequenceKey submission.data.projectId)

/-- The task an admission appends. -/
def newTask (submission : Submission) (s : Executor) : Task where
  data := submission.data
  coldBatches := partition submission.batchWriters submission.data.points
  hotPredecessors :=
    (linkHotTails s.tasks.length (submissionKeys submission) s.sequenceHotTails []).2

theorem admit_tasks (submission : Submission) (s : Executor) :
    (admitTask config submission s).tasks = s.tasks ++ [newTask submission s] := rfl

theorem admit_length (config : Config) (submission : Submission) (s : Executor) :
    (admitTask config submission s).tasks.length = s.tasks.length + 1 := by
  rw [admit_tasks, List.length_append, List.length_singleton]

theorem admit_task_old (submission : Submission) {t : Nat} (h : t < s.tasks.length) :
    (admitTask config submission s).task t = s.task t :=
  task_append h

theorem admit_task_new (submission : Submission) (s : Executor) :
    (admitTask config submission s).task s.tasks.length = newTask submission s :=
  task_append_new s.tasks _

/-- The new task joins the queue of each of its lanes. -/
theorem admit_queue (submission : Submission) (s : Executor) (lane : Lane) :
    (admitTask config submission s).queue lane =
      if lane ∈ lanes config (newTask submission s) then s.queue lane ++ [s.tasks.length]
      else s.queue lane := by
  cases lane with
  | hot => exact (if_pos (hot_mem_lanes config _)).symm
  | cold index => rfl

/-- The lanes in use after a task has been admitted. -/
theorem hasLane_admitTask (submission : Submission) (s : Executor) (t : Nat) (lane : Lane) :
    HasLane config (admitTask config submission s) t lane ↔
      HasLane config s t lane ∨
        t = s.tasks.length ∧ lane ∈ lanes config (newTask submission s) := by
  rw [HasLane, HasLane, admit_length]
  constructor
  · rintro ⟨hlt, hlane⟩
    by_cases hold : t < s.tasks.length
    · rw [admit_task_old submission hold] at hlane
      exact Or.inl ⟨hold, hlane⟩
    · have hnew : t = s.tasks.length := by omega
      subst hnew
      rw [admit_task_new] at hlane
      exact Or.inr ⟨rfl, hlane⟩
  · rintro (⟨hold, hlane⟩ | ⟨rfl, hlane⟩)
    · rw [admit_task_old submission hold]
      exact ⟨by omega, hlane⟩
    · rw [admit_task_new]
      exact ⟨by omega, hlane⟩

/-! ## Ownership is kept -/

theorem owned_init (config : Config) : Owned config {} where
  queued := by
    intro lane t
    have hempty : ({} : Executor).queue lane = [] := by
      cases lane with
      | hot => rfl
      | cold index => rfl
    rw [hempty]
    constructor
    · intro hmem
      cases hmem
    · rintro ⟨⟨hlt, -⟩, -⟩
      exact absurd hlt (Nat.not_lt_zero t)
  sorted := by
    intro lane
    cases lane with
    | hot => exact List.Pairwise.nil
    | cold index => exact List.Pairwise.nil
  fifo := fun _ a _ _ hlane _ => absurd hlane.1 (Nat.not_lt_zero a)
  fits := fun _ lane => by cases lane <;> trivial
  outside := fun _ _ _ => rfl
  holds := fun _ _ h => by cases h
  held := fun _ _ h => absurd rfl h.1
  single := fun _ _ _ _ h => by cases h
  exited := fun _ h => by cases h

/-- A task that has not been admitted has no stage. -/
theorem Owned.unadmitted (h : Owned config s) {t : Nat} (ht : s.tasks.length ≤ t)
    (lane : Lane) : s.stage t lane = .queued :=
  h.outside t lane fun hlane => absurd hlane.1 (by omega)

/-- Admitting a task keeps every task with one owner. -/
theorem Owned.admitTask (h : Owned config s) (hopen : s.stopping = false) (submission : Submission) :
    Owned config (admitTask config submission s) where
  queued := by
    intro lane t
    rw [admit_queue, hasLane_admitTask]
    show _ ↔ _ ∧ s.stage t lane = .queued
    by_cases hlane : lane ∈ lanes config (newTask submission s)
    · rw [if_pos hlane, List.mem_append, List.mem_singleton, h.queued]
      constructor
      · rintro (⟨hold, hstage⟩ | rfl)
        · exact ⟨Or.inl hold, hstage⟩
        · exact ⟨Or.inr ⟨rfl, hlane⟩, h.unadmitted (Nat.le_refl _) lane⟩
      · rintro ⟨hold | ⟨rfl, -⟩, hstage⟩
        · exact Or.inl ⟨hold, hstage⟩
        · exact Or.inr rfl
    · rw [if_neg hlane, h.queued]
      refine and_congr_left fun _ => ⟨Or.inl, fun hor => hor.resolve_right fun hnew => ?_⟩
      exact hlane hnew.2
  sorted := by
    intro lane
    rw [admit_queue]
    by_cases hlane : lane ∈ lanes config (newTask submission s)
    · rw [if_pos hlane]
      refine List.pairwise_append.mpr ⟨h.sorted lane, List.pairwise_singleton _ _, ?_⟩
      intro t ht new hnew
      rw [List.mem_singleton.mp hnew]
      exact ((h.queued lane t).mp ht).1.1
    · rw [if_neg hlane]
      exact h.sorted lane
  fifo := by
    intro lane a b hab hlane hb
    rcases (hasLane_admitTask submission s a lane).mp hlane with hold | ⟨rfl, -⟩
    · exact h.fifo lane a b hab hold hb
    · exact absurd (h.unadmitted (by omega) lane) hb
  fits := h.fits
  outside := fun t lane hnot =>
    h.outside t lane fun hold => hnot ((hasLane_admitTask submission s t lane).mpr (Or.inl hold))
  holds := by
    intro w t hw
    obtain ⟨hstarted, hlane, hactive⟩ := h.holds w t hw
    exact ⟨hstarted, (hasLane_admitTask submission s t w.lane).mpr (Or.inl hlane), hactive⟩
  held := h.held
  single := h.single
  exited := by
    -- nobody has left before the executor stops
    intro w hw
    exact absurd (hopen.symm.trans (h.exited w hw).2.1) Bool.false_ne_true

theorem afterPop_queue (s : Executor) (w : Worker) (t : Nat) (lane : Lane) :
    (afterPop s w t).queue lane = (popQueue s w.lane).queue lane := by
  cases lane with
  | hot => rfl
  | cold index => rfl

theorem afterPop_stage_self (s : Executor) (w : Worker) (t : Nat) :
    (afterPop s w t).stage t w.lane = popped s t w.lane := setStage_self ..

theorem afterPop_stage_other (s : Executor) (w : Worker) (t t' : Nat) (lane : Lane)
    (h : ¬ (t' = t ∧ lane = w.lane)) : (afterPop s w t).stage t' lane = s.stage t' lane :=
  setStage_other h _

theorem afterPop_holding_self (s : Executor) (w : Worker) (t : Nat) :
    (afterPop s w t).holding w = some t := Function.update_self ..

theorem afterPop_holding_other (s : Executor) (w : Worker) (t : Nat) (w' : Worker) (h : w' ≠ w) :
    (afterPop s w t).holding w' = s.holding w' := Function.update_of_ne h _ _

theorem applyEffect_stage_self (s : Executor) (w : Worker) (t : Nat) (effect : Effect) :
    (applyEffect s w t effect).stage t w.lane = effect.stage := setStage_self ..

theorem applyEffect_stage_other (s : Executor) (w : Worker) (t : Nat) (effect : Effect) (t' : Nat)
    (lane : Lane) (h : ¬ (t' = t ∧ lane = w.lane)) :
    (applyEffect s w t effect).stage t' lane = s.stage t' lane :=
  setStage_other h _

theorem applyEffect_states_self (s : Executor) (w : Worker) (t : Nat) (effect : Effect) :
    (applyEffect s w t effect).states t = effect.state := Function.update_self ..

theorem applyEffect_states_other (s : Executor) (w : Worker) (t : Nat) (effect : Effect) (t' : Nat)
    (h : t' ≠ t) : (applyEffect s w t effect).states t' = s.states t' :=
  Function.update_of_ne h _ _

theorem popped_active (s : Executor) (t : Nat) (lane : Lane) : Active (popped s t lane) := by
  cases lane with
  | hot => exact ⟨nofun, nofun⟩
  | cold index => exact ⟨nofun, nofun⟩

theorem popped_fits (s : Executor) (t : Nat) (lane : Lane) : Fits lane (popped s t lane) := by
  cases lane with
  | hot => trivial
  | cold index => exact rfl

theorem hasLane_afterPop (w : Worker) (t t' : Nat) (lane : Lane) :
    HasLane config (afterPop s w t) t' lane ↔ HasLane config s t' lane := by
  have htasks : (afterPop s w t).tasks = s.tasks := (popQueue_frame s w.lane).1
  rw [HasLane, HasLane, Executor.task, Executor.task, htasks]

theorem afterPop_queue_self (s : Executor) (w : Worker) {t : Nat} {rest : List Nat}
    (hqueue : s.queue w.lane = t :: rest) : (afterPop s w t).queue w.lane = rest := by
  rw [afterPop_queue, queue_popQueue, hqueue]
  rfl

theorem afterPop_queue_other (s : Executor) (w : Worker) (t : Nat) {lane : Lane}
    (hne : lane ≠ w.lane) : (afterPop s w t).queue lane = s.queue lane := by
  rw [afterPop_queue, queue_popQueue_other s hne]

/-- The head of a queue is a lane that nobody works on. -/
theorem Owned.head (h : Owned config s) {w : Worker} {t : Nat} {rest : List Nat}
    (hqueue : s.queue w.lane = t :: rest) :
    HasLane config s t w.lane ∧ s.stage t w.lane = .queued := by
  refine (h.queued w.lane t).mp ?_
  rw [hqueue]
  exact List.mem_cons_self ..

/-- The queues stay in the order of admission. -/
theorem Owned.pop_queues (h : Owned config s) {w : Worker} {t : Nat} {rest : List Nat}
    (hqueue : s.queue w.lane = t :: rest) :
    (∀ lane t', t' ∈ (afterPop s w t).queue lane ↔
      HasLane config (afterPop s w t) t' lane ∧ (afterPop s w t).stage t' lane = .queued) ∧
    (∀ lane, ((afterPop s w t).queue lane).Pairwise (· < ·)) ∧
    ∀ lane a b, a < b → HasLane config (afterPop s w t) a lane →
      (afterPop s w t).stage b lane ≠ .queued → (afterPop s w t).stage a lane ≠ .queued := by
  have hsorted := h.sorted w.lane
  rw [hqueue, List.pairwise_cons] at hsorted
  obtain ⟨hfirst, hrest⟩ := hsorted
  have hnotmem : t ∉ rest := fun hin => absurd (hfirst t hin) (lt_irrefl t)
  have hactive := popped_active s t w.lane
  have hstageOwn := afterPop_stage_self s w t
  have hstageOther := afterPop_stage_other s w t
  refine ⟨fun lane t' => ?_, fun lane => ?_, fun lane a b hab ha hb => ?_⟩
  · rw [hasLane_afterPop]
    by_cases hl : lane = w.lane
    · subst hl
      rw [afterPop_queue_self s w hqueue]
      by_cases ht : t' = t
      · subst ht
        rw [hstageOwn]
        exact ⟨fun hin => absurd hin hnotmem, fun hstage => absurd hstage.2 hactive.1⟩
      · rw [hstageOther t' w.lane fun heq => ht heq.1, ← h.queued, hqueue, List.mem_cons]
        exact ⟨Or.inr, fun hor => hor.resolve_left ht⟩
    · rw [afterPop_queue_other s w t hl, hstageOther t' lane fun heq => hl heq.2]
      exact h.queued lane t'
  · by_cases hl : lane = w.lane
    · subst hl
      rw [afterPop_queue_self s w hqueue]
      exact hrest
    · rw [afterPop_queue_other s w t hl]
      exact h.sorted lane
  · have ha' := (hasLane_afterPop w t a lane).mp ha
    by_cases hsame : a = t ∧ lane = w.lane
    · obtain ⟨rfl, rfl⟩ := hsame
      rw [hstageOwn]
      exact hactive.1
    · rw [hstageOther a lane hsame]
      by_cases hbt : b = t ∧ lane = w.lane
      · -- an earlier task of the lane would stand in front of the popped one
        obtain ⟨rfl, rfl⟩ := hbt
        intro haq
        have hin := (h.queued w.lane a).mpr ⟨ha', haq⟩
        rw [hqueue] at hin
        rcases List.mem_cons.mp hin with rfl | hin
        · exact absurd hab (lt_irrefl _)
        · exact absurd (hfirst a hin) (by omega)
      · rw [hstageOther b lane hbt] at hb
        exact h.fifo lane a b hab ha' hb

/-- Each task that is worked on is in the hands of one worker. -/
theorem Owned.pop_hands (h : Owned config s) {w : Worker} {t : Nat} {rest : List Nat}
    (hstarted : started config w = true) (hfree : s.holding w = none)
    (hqueue : s.queue w.lane = t :: rest) :
    (∀ w' t', (afterPop s w t).holding w' = some t' → started config w' = true ∧
      HasLane config (afterPop s w t) t' w'.lane ∧
        Active ((afterPop s w t).stage t' w'.lane)) ∧
    (∀ t' lane, Active ((afterPop s w t).stage t' lane) →
      ∃ w', w'.lane = lane ∧ (afterPop s w t).holding w' = some t') ∧
    ∀ w₁ w₂ t', w₁.lane = w₂.lane → (afterPop s w t).holding w₁ = some t' →
      (afterPop s w t).holding w₂ = some t' → w₁ = w₂ := by
  obtain ⟨hlane, hqueued⟩ := h.head hqueue
  have hactive := popped_active s t w.lane
  have hstageOwn := afterPop_stage_self s w t
  have hstageOther := afterPop_stage_other s w t
  have hholdOwn := afterPop_holding_self s w t
  have hholdOther := afterPop_holding_other s w t
  -- nobody else holds the task: it was queued
  have hnobody : ∀ w', w'.lane = w.lane → s.holding w' ≠ some t := by
    intro w' hlane' hold
    have hact := (h.holds w' t hold).2.2
    rw [hlane'] at hact
    exact hact.1 hqueued
  refine ⟨fun w' t' hw' => ?_, fun t' lane hact => ?_, fun w₁ w₂ t' hl h₁ h₂ => ?_⟩
  · rw [hasLane_afterPop]
    by_cases hw : w' = w
    · subst hw
      have ht : t = t' := Option.some.inj (hholdOwn.symm.trans hw')
      subst ht
      rw [hstageOwn]
      exact ⟨hstarted, hlane, hactive⟩
    · rw [hholdOther w' hw] at hw'
      obtain ⟨hs, hl, ha⟩ := h.holds w' t' hw'
      refine ⟨hs, hl, ?_⟩
      rwa [hstageOther t' w'.lane fun heq => hnobody w' heq.2 (by rw [← heq.1]; exact hw')]
  · by_cases hsame : t' = t ∧ lane = w.lane
    · obtain ⟨rfl, rfl⟩ := hsame
      exact ⟨w, rfl, hholdOwn⟩
    · rw [hstageOther t' lane hsame] at hact
      obtain ⟨w', hl, hw'⟩ := h.held t' lane hact
      have hne : w' ≠ w := by
        rintro rfl
        rw [hfree] at hw'
        cases hw'
      exact ⟨w', hl, (hholdOther w' hne).trans hw'⟩
  · by_cases hw₁ : w₁ = w
    · by_cases hw₂ : w₂ = w
      · rw [hw₁, hw₂]
      · rw [hw₁, hholdOwn] at h₁
        rw [hholdOther w₂ hw₂, ← Option.some.inj h₁] at h₂
        exact absurd h₂ (hnobody w₂ (by rw [← hl, hw₁]))
    · by_cases hw₂ : w₂ = w
      · rw [hw₂, hholdOwn] at h₂
        rw [hholdOther w₁ hw₁, ← Option.some.inj h₂] at h₁
        exact absurd h₁ (hnobody w₁ (by rw [hl, hw₂]))
      · rw [hholdOther w₁ hw₁] at h₁
        rw [hholdOther w₂ hw₂] at h₂
        exact h.single w₁ w₂ t' hl h₁ h₂

/-- Taking a task off a queue keeps every task with one owner. -/
theorem Owned.pop (h : Owned config s) {w : Worker} {t : Nat} {rest : List Nat}
    (hstarted : started config w = true) (hfree : s.holding w = none) (hexited : s.exited w = false)
    (hqueue : s.queue w.lane = t :: rest) : Owned config (afterPop s w t) := by
  obtain ⟨-, -, -, hexit, hstop⟩ := popQueue_frame s w.lane
  obtain ⟨hlane, -⟩ := h.head hqueue
  obtain ⟨hqueued, hsorted, hfifo⟩ := h.pop_queues hqueue
  obtain ⟨hholds, hheld, hsingle⟩ := h.pop_hands hstarted hfree hqueue
  have hstageOther := afterPop_stage_other s w t
  refine ⟨hqueued, hsorted, hfifo, fun t' lane => ?_, fun t' lane hnot => ?_, hholds, hheld, hsingle,
    fun w' hw' => ?_⟩
  · by_cases hsame : t' = t ∧ lane = w.lane
    · obtain ⟨rfl, rfl⟩ := hsame
      rw [afterPop_stage_self]
      exact popped_fits s t' w.lane
    · rw [hstageOther t' lane hsame]
      exact h.fits t' lane
  · rw [hasLane_afterPop] at hnot
    rw [hstageOther t' lane fun heq => hnot (by rw [heq.1, heq.2]; exact hlane)]
    exact h.outside t' lane hnot
  · have hleft : s.exited w' = true := by
      rw [← hexit]
      exact hw'
    obtain ⟨hnone, hstopping, hempty⟩ := h.exited w' hleft
    have hne : w' ≠ w := by
      rintro rfl
      exact absurd (hexited.symm.trans hleft) Bool.false_ne_true
    have hl : w'.lane ≠ w.lane := by
      intro heq
      rw [heq, hqueue] at hempty
      cases hempty
    refine ⟨(afterPop_holding_other s w t w' hne).trans hnone, ?_,
      (afterPop_queue_other s w t hl).trans hempty⟩
    exact hstop.trans hstopping

/-- Who holds a task after a worker's step. -/
theorem applyEffect_holding (w : Worker) (t : Nat) (effect : Effect) (w' : Worker) (t' : Nat) :
    (applyEffect s w t effect).holding w' = some t' ↔
      s.holding w' = some t' ∧ ¬ (effect.stage = .done ∧ w' = w) := by
  cases hstage : effect.stage with
  | done =>
      have hholding : (applyEffect s w t effect).holding = Function.update s.holding w none := by
        simp only [applyEffect, hstage]
      rw [hholding]
      by_cases hw : w' = w
      · subst hw
        simp
      · rw [Function.update_of_ne hw]
        simp [hw]
  | _ => simp [applyEffect, hstage]

theorem applyEffect_queue (w : Worker) (t : Nat) (effect : Effect) (lane : Lane) :
    (applyEffect s w t effect).queue lane = s.queue lane := by
  cases lane with
  | hot => rfl
  | cold index => rfl

/-- A step of a worker keeps every task with one owner. -/
theorem Owned.work (h : Owned config s) {w : Worker} {t : Nat} {effect : Effect}
    (hholding : s.holding w = some t) (hmoves : Moves s t w.lane effect) :
    Owned config (applyEffect s w t effect) := by
  obtain ⟨hstarted, hlane, hactive⟩ := h.holds w t hholding
  have hstageOwn := applyEffect_stage_self s w t effect
  have hstageOther := applyEffect_stage_other s w t effect
  -- the step moves no lane into the queue or out of it
  have hqueued : ∀ t' lane, (applyEffect s w t effect).stage t' lane = .queued ↔
      s.stage t' lane = .queued := by
    intro t' lane
    by_cases hsame : t' = t ∧ lane = w.lane
    · obtain ⟨rfl, rfl⟩ := hsame
      rw [hstageOwn]
      exact ⟨fun hq => absurd hq hmoves.not_queued, fun hq => absurd hq hactive.1⟩
    · rw [hstageOther t' lane hsame]
  refine ⟨?_, ?_, ?_, ?_, ?_, ?_, ?_, ?_, ?_⟩
  · intro lane t'
    rw [applyEffect_queue, hqueued]
    exact h.queued lane t'
  · intro lane
    rw [applyEffect_queue]
    exact h.sorted lane
  · intro lane a b hab ha hb
    rw [Ne, hqueued] at hb ⊢
    exact h.fifo lane a b hab ha hb
  · intro t' lane
    by_cases hsame : t' = t ∧ lane = w.lane
    · obtain ⟨rfl, rfl⟩ := hsame
      rw [hstageOwn]
      exact hmoves.fits
    · rw [hstageOther t' lane hsame]
      exact h.fits t' lane
  · intro t' lane hnot
    exact (hqueued t' lane).mpr (h.outside t' lane hnot)
  · intro w' t' hw'
    obtain ⟨hold, hkept⟩ := (applyEffect_holding w t effect w' t').mp hw'
    obtain ⟨hs, hl, ha⟩ := h.holds w' t' hold
    refine ⟨hs, hl, ?_⟩
    by_cases hsame : t' = t ∧ w'.lane = w.lane
    · obtain ⟨rfl, heq⟩ := hsame
      have hw : w' = w := h.single w' w t' heq hold hholding
      subst hw
      rw [hstageOwn]
      exact ⟨hmoves.not_queued, fun hdone => hkept ⟨hdone, rfl⟩⟩
    · rw [hstageOther t' w'.lane hsame]
      exact ha
  · intro t' lane hact
    by_cases hsame : t' = t ∧ lane = w.lane
    · obtain ⟨rfl, rfl⟩ := hsame
      rw [hstageOwn] at hact
      exact ⟨w, rfl, (applyEffect_holding w t' effect w t').mpr
        ⟨hholding, fun hdone => hact.2 hdone.1⟩⟩
    · rw [hstageOther t' lane hsame] at hact
      obtain ⟨w', hl, hw'⟩ := h.held t' lane hact
      refine ⟨w', hl, (applyEffect_holding w t effect w' t').mpr ⟨hw', fun hdone => hsame ?_⟩⟩
      obtain ⟨-, rfl⟩ := hdone
      exact ⟨Option.some.inj (hw'.symm.trans hholding), hl.symm⟩
  · intro w₁ w₂ t' hl h₁ h₂
    exact h.single w₁ w₂ t' hl ((applyEffect_holding w t effect w₁ t').mp h₁).1
      ((applyEffect_holding w t effect w₂ t').mp h₂).1
  · intro w' hw'
    obtain ⟨hnone, hstopping, hempty⟩ := h.exited w' hw'
    refine ⟨?_, hstopping, ?_⟩
    · cases hafter : (applyEffect s w t effect).holding w' with
      | none => rfl
      | some t' =>
          have hold := ((applyEffect_holding w t effect w' t').mp hafter).1
          rw [hnone] at hold
          cases hold
    · rw [applyEffect_queue]
      exact hempty

/-- A call that is over. -/
theorem Owned.forget (h : Owned config s) (call : Nat) :
    Owned config { s with submissions := Function.update s.submissions call none } :=
  ⟨h.queued, h.sorted, h.fifo, h.fits, h.outside, h.holds, h.held, h.single, h.exited⟩

/-- Every step keeps every task with one owner. -/
theorem Owned.step (h : Owned config s) {s' : Executor} (hstep : Stepped config s s') :
    Owned config s' := by
  cases hstep with
  | submitted data hfree =>
      exact ⟨h.queued, h.sorted, h.fifo, h.fits, h.outside, h.holds, h.held, h.single, h.exited⟩
  | refused call result submissions =>
      exact ⟨h.queued, h.sorted, h.fifo, h.fits, h.outside, h.holds, h.held, h.single, h.exited⟩
  | routed hcall hunrouted hwriter =>
      exact ⟨h.queued, h.sorted, h.fifo, h.fits, h.outside, h.holds, h.held, h.single, h.exited⟩
  | @admitted call submission hcall hrouted hopen hroom =>
      exact (h.forget call).admitTask hopen submission
  | popped hstarted hfree hexited hqueue => exact h.pop hstarted hfree hexited hqueue
  | worked hholding hmoves => exact h.work hholding hmoves
  | @left w hfree hstopping hqueue =>
      refine ⟨h.queued, h.sorted, h.fifo, h.fits, h.outside, h.holds, h.held, h.single, ?_⟩
      intro w' hw'
      by_cases hw : w' = w
      · rw [hw]
        exact ⟨hfree, hstopping, hqueue⟩
      · refine h.exited w' ?_
        rw [← hw']
        exact (Function.update_of_ne hw _ _).symm
  | stopped =>
      refine ⟨h.queued, h.sorted, h.fifo, h.fits, h.outside, h.holds, h.held, h.single, ?_⟩
      intro w' hw'
      obtain ⟨hnone, -, hempty⟩ := h.exited w' hw'
      exact ⟨hnone, rfl, hempty⟩

/-- A property of owned states that every step keeps holds after every interleaving. -/
theorem reached_invariant (config : Config) {P : Executor → Prop} (hinit : P {})
    (hstep : ∀ s s', Owned config s → P s → Stepped config s s' → P s') (actions : List Action) :
    Owned config (reached config actions) ∧ P (reached config actions) := by
  refine @run_invariant _ _ (perform config) (fun s => Owned config s ∧ P s) (fun _ => True)
    (fun s action _ hs => ?_) {} ⟨owned_init config, hinit⟩ actions fun _ _ => trivial
  rw [perform]
  cases h : step config s action with
  | none => exact hs
  | some s' =>
      have hstepped := step_cases hs.1.fits h
      exact ⟨hs.1.step hstepped, hstep s s' hs.1 hs.2 hstepped⟩

theorem reached_owned (config : Config) (actions : List Action) :
    Owned config (reached config actions) :=
  (reached_invariant config (P := fun _ => True) trivial (fun _ _ _ _ _ => trivial) actions).1

end ExecutorOwnership
