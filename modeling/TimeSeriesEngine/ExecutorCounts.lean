import TimeSeriesEngine.Library.EventLog
import TimeSeriesEngine.ExecutorOwnership

/-!
# What an executor has done

The log of a run against the stages its lanes have reached: each event of a lane
occurs once the lane has passed it and never twice (`Counted.once`), `completion` is
set by the lane that counted to zero and by no other, and `pending_tasks_` counts
the accepted tasks that have not been released.
-/

namespace ExecutorCounts

open TseTypes IngestExecutor ExecutorOwnership EventLog

variable {config : Config} {s : Executor}

/-! ## Progress of a lane -/

/-- How far a lane is; the hot and the cold lanes share the scale. -/
def progress : Stage → Nat
  | .queued => 0
  | .waiting _ => 1
  | .calling => 2
  | .returned _ => 3
  | .merging _ => 3
  | .ordered _ => 4
  | .announcing _ => 5
  | .counting => 6
  | .finishing _ => 7
  | .releasing => 8
  | .done => 9

/-- The events a lane goes through, and the progress from which on they have been. -/
def milestone : Event → Option (Nat × Lane × Nat)
  | .started t lane => some (t, lane, 2)
  | .returned t lane => some (t, lane, 3)
  | .hotCompleted t => some (t, .hot, 6)
  | .finished t lane => some (t, lane, 7)
  | _ => none

/-- The event turns a call away. -/
def isRefusal : Event → Bool
  | .rejected _ _ => true
  | _ => false

theorem milestone_refusal {e : Event} {m : Nat × Lane × Nat} (h : milestone e = some m) :
    isRefusal e = false := by
  cases e <;> first | rfl | cases h

/-- The event sets the completion of the task. -/
def completes (t : Nat) : Event → Bool
  | .completed t' _ => decide (t' = t)
  | _ => false

theorem two_le_milestone {e : Event} {t : Nat} {lane : Lane} {k : Nat}
    (h : milestone e = some (t, lane, k)) : 2 ≤ k := by
  cases e <;> cases h <;> decide

/-- A step of a lane logs the milestones it passes. -/
theorem Moves.milestone {t : Nat} {lane : Lane} {effect : Effect}
    (h : Moves s t lane effect) {e : Event} {t' : Nat} {lane' : Lane} {k : Nat}
    (he : milestone e = some (t', lane', k)) :
    effect.events.count e +
        (if (t' = t ∧ lane' = lane) ∧ k ≤ progress (s.stage t lane) then 1 else 0) =
      if (t' = t ∧ lane' = lane) ∧ k ≤ progress effect.stage then 1 else 0 := by
  cases h with
  | waited hstage | start hstage | hotReturn _ hstage | coldReturn _ hstage | order hstage
  | answer _ _ hstage | announce hstage | merge _ _ hstage | countLast hstage | count hstage
  | finish hstage | release hstage =>
      rw [hstage]
      cases e <;> cases he <;> simp [progress] <;> grind

/-- Where a step takes a lane, what it logs about the task, and what it does to the
    lane counter. -/
theorem Moves.account {t : Nat} {lane : Lane} {effect : Effect} (h : Moves s t lane effect) :
    effect.events.countP (completes t) = (if progress (s.stage t lane) = 7 then 1 else 0) ∧
      effect.events.count (.released t) = (if progress (s.stage t lane) = 8 then 1 else 0) ∧
      (effect.releases = true ↔ progress (s.stage t lane) = 8) ∧
      (progress (s.stage t lane) < 6 → progress effect.stage ≤ 6 ∧
        effect.state.remainingLanes = (s.states t).remainingLanes) ∧
      (progress (s.stage t lane) = 6 →
        effect.state.remainingLanes = (s.states t).remainingLanes - 1 ∧
          progress effect.stage =
            if (s.states t).remainingLanes - 1 = 0 then 7 else 9) ∧
      (7 ≤ progress (s.stage t lane) → progress effect.stage = progress (s.stage t lane) + 1 ∧
        effect.state.remainingLanes = (s.states t).remainingLanes) := by
  cases h with
  | waited hstage | start hstage | hotReturn _ hstage | coldReturn _ hstage | order hstage
  | answer _ _ hstage | announce hstage | merge _ _ hstage | finish hstage | release hstage =>
      rw [hstage]
      simp [progress, completes]
  | countLast hstage hlast =>
      rw [hstage]
      simp [progress, completes, hlast]
  | count hstage hmore =>
      rw [hstage]
      simp [progress, completes, hmore]

/-- A step logs nothing about other tasks. -/
theorem Moves.foreign {t : Nat} {lane : Lane} {effect : Effect} (h : Moves s t lane effect)
    {t' : Nat} (ht : t' ≠ t) :
    effect.events.countP (completes t') = 0 ∧ effect.events.count (.released t') = 0 := by
  have ht' : ¬ t = t' := fun heq => ht heq.symm
  cases h with
  | waited hstage | start hstage | hotReturn _ hstage | coldReturn _ hstage | order hstage
  | answer _ _ hstage | announce hstage | merge _ _ hstage | countLast hstage | count hstage
  | finish hstage | release hstage => simp [completes, ht']

/-- A worker completes its own task only. -/
theorem Moves.hotCompleted_own {t : Nat} {lane : Lane} {effect : Effect}
    (h : Moves s t lane effect) {t' : Nat} (hmem : Event.hotCompleted t' ∈ effect.events) :
    t' = t := by
  cases h with
  | waited hstage | start hstage | hotReturn _ hstage | coldReturn _ hstage | order hstage
  | answer _ _ hstage | announce hstage | merge _ _ hstage | countLast hstage | count hstage
  | finish hstage | release hstage => grind

/-- No step of a worker admits a task. -/
theorem Moves.admits_none {t : Nat} {lane : Lane} {effect : Effect} (h : Moves s t lane effect)
    (t' : Nat) : effect.events.count (.accepted t') = 0 := by
  cases h with
  | waited hstage | start hstage | hotReturn _ hstage | coldReturn _ hstage | order hstage
  | answer _ _ hstage | announce hstage | merge _ _ hstage | countLast hstage | count hstage
  | finish hstage | release hstage => simp

/-- The two promises of a task are set by the steps that log them. -/
theorem Moves.promises {t : Nat} {lane : Lane} {effect : Effect} (h : Moves s t lane effect) :
    (effect.state.completion.isSome = true ↔
        (s.states t).completion.isSome = true ∨ progress (s.stage t lane) = 7) ∧
      (effect.state.hotCompletion.isSome = true ↔
        (s.states t).hotCompletion.isSome = true ∨ Event.hotCompleted t ∈ effect.events) := by
  cases h with
  | waited hstage | start hstage | hotReturn _ hstage | coldReturn _ hstage | order hstage
  | answer _ _ hstage | announce hstage | merge _ _ hstage | countLast hstage | count hstage
  | finish hstage | release hstage =>
      rw [hstage]
      simp [progress]

/-! ## The lanes of a task -/

/-- How many lanes of a task are in stages of a kind. -/
def stageCount (config : Config) (s : Executor) (t : Nat) (kind : Stage → Bool) : Nat :=
  (lanes config (s.task t)).countP fun lane => kind (s.stage t lane)

/-- Not counted off yet. -/
def isOpen (stage : Stage) : Bool := decide (progress stage < 7)

/-- The lane is about to set the completion. -/
def isFinishing (stage : Stage) : Bool := decide (progress stage = 7)

/-- The lane is about to count the task off. -/
def isReleasing (stage : Stage) : Bool := decide (progress stage = 8)

theorem stageCount_congr {s' : Executor} {t : Nat} (htask : s'.task t = s.task t)
    (hstage : ∀ lane, s'.stage t lane = s.stage t lane) (kind : Stage → Bool) :
    stageCount config s' t kind = stageCount config s t kind := by
  rw [stageCount, stageCount, htask]
  exact List.countP_congr fun lane _ => by rw [hstage]

/-- One lane moves. -/
theorem stageCount_move {s' : Executor} {t : Nat} {lane : Lane} (htask : s'.task t = s.task t)
    (hlane : lane ∈ lanes config (s.task t))
    (hstage : ∀ lane', lane' ≠ lane → s'.stage t lane' = s.stage t lane')
    (kind : Stage → Bool) :
    stageCount config s' t kind + (if kind (s.stage t lane) = true then 1 else 0) =
      stageCount config s t kind + if kind (s'.stage t lane) = true then 1 else 0 := by
  rw [stageCount, stageCount, htask]
  refine @countP_change _ (fun lane => kind (s.stage t lane)) (fun lane => kind (s'.stage t lane))
    lane _ (lanes_nodup config _) hlane ?_
  intro lane' _ hne
  show kind (s'.stage t lane') = kind (s.stage t lane')
  rw [hstage lane' hne]

/-- Before anything of a task is popped. -/
theorem stageCount_queued {t : Nat} (hstage : ∀ lane, s.stage t lane = .queued)
    (kind : Stage → Bool) :
    stageCount config s t kind =
      if kind .queued = true then (lanes config (s.task t)).length else 0 := by
  rw [stageCount]
  by_cases hkind : kind .queued = true
  · rw [if_pos hkind, List.countP_eq_length]
    intro lane _
    rw [hstage]
    exact hkind
  · rw [if_neg hkind, List.countP_eq_zero]
    intro lane _
    rw [hstage]
    exact hkind

theorem stageCount_eq_zero {t : Nat} {kind : Stage → Bool} :
    stageCount config s t kind = 0 ↔
      ∀ lane ∈ lanes config (s.task t), kind (s.stage t lane) = false := by
  rw [stageCount, List.countP_eq_zero]
  simp

/-- A task that has not been admitted. -/
theorem task_unadmitted {t : Nat} (h : s.tasks.length ≤ t) : s.task t = {} := by
  rw [Executor.task, List.getD_eq_getElem?_getD, List.getElem?_eq_none h]
  rfl

theorem lanes_default (config : Config) : lanes config {} = [.hot] := by
  simp [lanes]

/-! ## Log, stages and counters -/

/-- The log says of every task and lane what its stage says, and the counters count
    what is left. -/
structure Counted (config : Config) (s : Executor) : Prop where
  once : ∀ e t lane k, milestone e = some (t, lane, k) →
    s.log.count e = if k ≤ progress (s.stage t lane) then 1 else 0
  accepted : ∀ t, s.log.count (.accepted t) = if t < s.tasks.length then 1 else 0
  remaining : ∀ t, (s.states t).remainingLanes = stageCount config s t isOpen
  completion : ∀ t, s.log.countP (completes t) + stageCount config s t isFinishing =
    if stageCount config s t isOpen = 0 then 1 else 0
  released : ∀ t, s.log.count (.released t) + stageCount config s t isReleasing =
    s.log.countP (completes t)
  pending : s.pendingTasks =
    (List.range s.tasks.length).countP fun t => decide (Event.released t ∉ s.log)
  bounded : s.pendingTasks ≤ config.queueCapacity
  completionSet : ∀ t, (s.states t).completion.isSome = true ↔ 0 < s.log.countP (completes t)
  hotCompletionSet : ∀ t, (s.states t).hotCompletion.isSome = true ↔
    Event.hotCompleted t ∈ s.log

/-- An event of a lane is in the log once the lane has passed it. -/
theorem Counted.mem_log (h : Counted config s) {e : Event} {t : Nat} {lane : Lane} {k : Nat}
    (he : milestone e = some (t, lane, k)) : e ∈ s.log ↔ k ≤ progress (s.stage t lane) := by
  rw [← List.count_pos_iff, h.once e t lane k he]
  by_cases hk : k ≤ progress (s.stage t lane)
  · simp [hk]
  · simp [hk]

/-- A task of which nothing has been popped or logged. -/
theorem stageCount_default {t : Nat} (htask : s.task t = {})
    (hstage : ∀ lane, s.stage t lane = .queued) :
    stageCount config s t isOpen = 1 ∧ stageCount config s t isFinishing = 0 ∧
      stageCount config s t isReleasing = 0 := by
  rw [stageCount_queued hstage, stageCount_queued hstage, stageCount_queued hstage, htask,
    lanes_default]
  exact ⟨rfl, rfl, rfl⟩

theorem counted_init (config : Config) : Counted config {} where
  once := by
    intro e t lane k he
    have hk := two_le_milestone he
    show 0 = if k ≤ 0 then 1 else 0
    rw [if_neg (by omega)]
  accepted := fun _ => rfl
  remaining := fun t => (stageCount_default rfl fun _ => rfl).1.symm
  completion := by
    intro t
    obtain ⟨hopen, hfinishing, -⟩ := @stageCount_default config {} t rfl fun _ => rfl
    rw [hopen, hfinishing]
    rfl
  released := by
    intro t
    obtain ⟨-, -, hreleasing⟩ := @stageCount_default config {} t rfl fun _ => rfl
    rw [hreleasing]
    rfl
  pending := rfl
  bounded := Nat.zero_le _
  completionSet := fun t => by simp
  hotCompletionSet := fun t => by simp

/-- A step that changes no task keeps the counts. -/
theorem Counted.quiet (h : Counted config s) {s' : Executor} (hquiet : Quiet s s') :
    Counted config s' := by
  have htask : ∀ t, s'.task t = s.task t := fun t => by
    rw [Executor.task, hquiet.tasks, Executor.task]
  have hcount : ∀ t kind, stageCount config s' t kind = stageCount config s t kind :=
    fun t kind => stageCount_congr (htask t) (fun lane => by rw [hquiet.stage]) kind
  -- a refusal is none of the events that are counted
  have hlog : ∀ e, isRefusal e = false → s'.log.count e = s.log.count e := by
    intro e he
    rcases hquiet.log with hsame | ⟨call, result, hsame⟩
    · rw [hsame]
    · have hne : Event.rejected call result ≠ e := by
        rintro rfl
        cases he
      rw [hsame, List.count_append, List.count_singleton, if_neg (by simpa using hne),
        Nat.add_zero]
  have hcompletes : ∀ t, s'.log.countP (completes t) = s.log.countP (completes t) := by
    intro t
    rcases hquiet.log with hsame | ⟨call, result, hsame⟩
    · rw [hsame]
    · rw [hsame, List.countP_append]
      rfl
  have hmem : ∀ e, isRefusal e = false → (e ∈ s'.log ↔ e ∈ s.log) := by
    intro e he
    rw [← List.count_pos_iff, ← List.count_pos_iff, hlog e he]
  refine ⟨?_, ?_, ?_, ?_, ?_, ?_, ?_, ?_, ?_⟩
  · intro e t lane k he
    rw [hlog e (milestone_refusal he), hquiet.stage]
    exact h.once e t lane k he
  · intro t
    rw [hlog _ rfl, hquiet.tasks]
    exact h.accepted t
  · intro t
    rw [hquiet.states, hcount]
    exact h.remaining t
  · intro t
    rw [hcompletes, hcount, hcount]
    exact h.completion t
  · intro t
    rw [hlog _ rfl, hcount, hcompletes]
    exact h.released t
  · rw [hquiet.pending, hquiet.tasks, h.pending]
    refine List.countP_congr fun t _ => ?_
    rw [decide_eq_true_iff, decide_eq_true_iff, hmem _ rfl]
  · rw [hquiet.pending]
    exact h.bounded
  · intro t
    rw [hquiet.states, hcompletes]
    exact h.completionSet t
  · intro t
    rw [hquiet.states, hmem _ rfl]
    exact h.hotCompletionSet t

/-- The log of an admission: nothing but the acceptance is new. -/
theorem admit_count (config : Config) (submission : Submission) {e : Event}
    (he : Event.accepted s.tasks.length ≠ e) :
    (admitTask config submission s).log.count e = s.log.count e := by
  show (s.log ++ [Event.accepted s.tasks.length]).count e = _
  rw [List.count_append, List.count_singleton, if_neg (by simpa using he), Nat.add_zero]

theorem mem_admit_log (config : Config) (submission : Submission) {e : Event}
    (he : Event.accepted s.tasks.length ≠ e) :
    e ∈ (admitTask config submission s).log ↔ e ∈ s.log := by
  rw [← List.count_pos_iff, ← List.count_pos_iff, admit_count config submission he]

theorem admit_completes (config : Config) (submission : Submission) (t : Nat) :
    (admitTask config submission s).log.countP (completes t) = s.log.countP (completes t) := by
  show (s.log ++ [Event.accepted s.tasks.length]).countP (completes t) = _
  rw [List.countP_append]
  rfl

/-- The lanes of the other tasks are as they were. -/
theorem admit_stageCount_old (submission : Submission) {t : Nat} (ht : t ≠ s.tasks.length)
    (kind : Stage → Bool) :
    stageCount config (admitTask config submission s) t kind = stageCount config s t kind := by
  have htask : (admitTask config submission s).task t = s.task t := by
    by_cases hlt : t < s.tasks.length
    · exact admit_task_old submission hlt
    · rw [task_unadmitted (by rw [admit_length]; omega), task_unadmitted (by omega)]
  exact stageCount_congr htask (fun _ => rfl) kind

/-- The new task has all its lanes in front of it. -/
theorem admit_stageCount_new (howned : Owned config s) (submission : Submission)
    (kind : Stage → Bool) :
    stageCount config (admitTask config submission s) s.tasks.length kind =
      if kind .queued = true then (lanes config (newTask submission s)).length else 0 := by
  have hqueued : ∀ lane, (admitTask config submission s).stage s.tasks.length lane = .queued :=
    howned.unadmitted (Nat.le_refl _)
  rw [stageCount_queued hqueued, admit_task_new]

/-- Admitting a task keeps the counts. -/
theorem Counted.admitTask (h : Counted config s) (howned : Owned config s)
    (hroom : s.pendingTasks < config.queueCapacity) (submission : Submission) :
    Counted config (admitTask config submission s) := by
  have hqueued : ∀ lane, s.stage s.tasks.length lane = .queued :=
    howned.unadmitted (Nat.le_refl _)
  have hstateNew : ((IngestExecutor.admitTask config submission s).states s.tasks.length) =
      { remainingLanes := (lanes config (newTask submission s)).length } :=
    Function.update_self ..
  have hstateOld : ∀ t, t ≠ s.tasks.length →
      (IngestExecutor.admitTask config submission s).states t = s.states t :=
    fun t ht => Function.update_of_ne ht _ _
  obtain ⟨hopen, hfinishing, hreleasing⟩ :=
    @stageCount_default config s s.tasks.length (task_unadmitted (Nat.le_refl _)) hqueued
  have hlanes : 0 < (lanes config (newTask submission s)).length :=
    List.length_pos_of_mem (hot_mem_lanes config _)
  have hcompletion := h.completion s.tasks.length
  rw [hopen, hfinishing, if_neg Nat.one_ne_zero] at hcompletion
  have hreleased := h.released s.tasks.length
  refine ⟨?_, ?_, ?_, ?_, ?_, ?_, ?_, ?_, ?_⟩
  · intro e t lane k he
    rw [admit_count config submission (by rintro rfl; cases he)]
    exact h.once e t lane k he
  · intro t
    show (s.log ++ [Event.accepted s.tasks.length]).count (Event.accepted t) = _
    rw [List.count_append, h.accepted, admit_length]
    by_cases ht : t = s.tasks.length
    · rw [ht, if_neg (Nat.lt_irrefl _), if_pos (Nat.lt_succ_self _), List.count_singleton_self]
    · have hne : ¬ Event.accepted s.tasks.length = .accepted t := by
        rintro heq
        cases heq
        exact ht rfl
      rw [List.count_singleton, if_neg (show ¬ (_ == _) = true by simpa using hne), Nat.add_zero]
      exact if_congr (by omega) rfl rfl
  · intro t
    by_cases ht : t = s.tasks.length
    · rw [ht, hstateNew, admit_stageCount_new howned]
      rfl
    · rw [hstateOld t ht, admit_stageCount_old submission ht]
      exact h.remaining t
  · intro t
    rw [admit_completes]
    by_cases ht : t = s.tasks.length
    · rw [ht, admit_stageCount_new howned, admit_stageCount_new howned]
      show _ + 0 = if (lanes config (newTask submission s)).length = 0 then 1 else 0
      rw [if_neg (by omega)]
      omega
    · rw [admit_stageCount_old submission ht, admit_stageCount_old submission ht]
      exact h.completion t
  · intro t
    rw [admit_completes, admit_count config submission (e := .released t) nofun]
    by_cases ht : t = s.tasks.length
    · rw [ht, admit_stageCount_new howned]
      show _ + 0 = _
      omega
    · rw [admit_stageCount_old submission ht]
      exact h.released t
  · show s.pendingTasks + 1 = _
    have hunreleased : Event.released s.tasks.length ∉ s.log := by
      rw [← List.count_eq_zero]
      omega
    rw [admit_length, List.range_succ, List.countP_append, List.countP_singleton,
      if_pos (by simpa [mem_admit_log config submission] using hunreleased), h.pending, Nat.add_right_cancel_iff]
    refine List.countP_congr fun t _ => ?_
    rw [decide_eq_true_iff, decide_eq_true_iff, mem_admit_log config submission (e := .released t) nofun]
  · show s.pendingTasks + 1 ≤ _
    omega
  · intro t
    rw [admit_completes]
    by_cases ht : t = s.tasks.length
    · rw [ht, hstateNew]
      show false = true ↔ _
      exact ⟨nofun, fun hpos => absurd hpos (by omega)⟩
    · rw [hstateOld t ht]
      exact h.completionSet t
  · intro t
    rw [mem_admit_log config submission (e := .hotCompleted t) nofun]
    by_cases ht : t = s.tasks.length
    · rw [ht, hstateNew, h.mem_log rfl, hqueued]
      show false = true ↔ 6 ≤ 0
      exact ⟨nofun, fun hle => absurd hle (by omega)⟩
    · rw [hstateOld t ht]
      exact h.hotCompletionSet t

/-- Taking a task off a queue keeps the counts. -/
theorem Counted.pop (h : Counted config s) (howned : Owned config s) {w : Worker} {t : Nat}
    {rest : List Nat} (hqueue : s.queue w.lane = t :: rest) : Counted config (afterPop s w t) := by
  obtain ⟨⟨-, hlane⟩, hqueued⟩ := howned.head hqueue
  obtain ⟨htasks, -, -, -, -⟩ := popQueue_frame s w.lane
  have htask : ∀ t', (afterPop s w t).task t' = s.task t' := fun t' => by
    rw [Executor.task, Executor.task]
    exact congrArg (fun tasks => List.getD tasks t' {}) htasks
  obtain ⟨hlog, hstates, hpending⟩ : (afterPop s w t).log = s.log ∧
      (afterPop s w t).states = s.states ∧ (afterPop s w t).pendingTasks = s.pendingTasks := by
    rw [afterPop]
    cases w.lane with
    | hot => exact ⟨rfl, rfl, rfl⟩
    | cold index => exact ⟨rfl, rfl, rfl⟩
  have hpopped : progress (popped s t w.lane) = 1 := by
    cases w.lane with
    | hot => rfl
    | cold index => rfl
  -- no milestone lies between the queue and the wait
  have hstage : ∀ t' lane k, 2 ≤ k → (k ≤ progress ((afterPop s w t).stage t' lane) ↔
      k ≤ progress (s.stage t' lane)) := by
    intro t' lane k hk
    by_cases hsame : t' = t ∧ lane = w.lane
    · obtain ⟨rfl, rfl⟩ := hsame
      rw [show (afterPop s w t').stage t' w.lane = _ from setStage_self .., hpopped, hqueued]
      exact ⟨fun hle => absurd hle (by omega), fun hle => absurd (Nat.le_trans hk hle) (by decide)⟩
    · rw [afterPop_stage_other s w t t' lane hsame]
  have hcount : ∀ t' kind, kind (popped s t w.lane) = kind .queued →
      stageCount config (afterPop s w t) t' kind = stageCount config s t' kind := by
    intro t' kind hkind
    rw [stageCount, stageCount, htask]
    refine List.countP_congr fun lane _ => ?_
    by_cases hsame : t' = t ∧ lane = w.lane
    · obtain ⟨rfl, rfl⟩ := hsame
      rw [show (afterPop s w t').stage t' w.lane = _ from setStage_self .., hkind, hqueued]
    · rw [afterPop_stage_other s w t t' lane hsame]
  have hopen : isOpen (popped s t w.lane) = isOpen .queued := by rw [isOpen, hpopped]; rfl
  have hfinishing : isFinishing (popped s t w.lane) = isFinishing .queued := by
    rw [isFinishing, hpopped]; rfl
  have hreleasing : isReleasing (popped s t w.lane) = isReleasing .queued := by
    rw [isReleasing, hpopped]; rfl
  refine ⟨?_, ?_, ?_, ?_, ?_, ?_, ?_, ?_, ?_⟩
  · intro e t' lane k he
    rw [hlog, h.once e t' lane k he]
    exact if_congr (hstage t' lane k (two_le_milestone he)).symm rfl rfl
  · intro t'
    rw [hlog, show (afterPop s w t).tasks = s.tasks from htasks]
    exact h.accepted t'
  · intro t'
    rw [hstates, hcount t' _ hopen]
    exact h.remaining t'
  · intro t'
    rw [hlog, hcount t' _ hopen, hcount t' _ hfinishing]
    exact h.completion t'
  · intro t'
    rw [hlog, hcount t' _ hreleasing]
    exact h.released t'
  · rw [hlog, hpending, show (afterPop s w t).tasks = s.tasks from htasks]
    exact h.pending
  · rw [hpending]
    exact h.bounded
  · intro t'
    rw [hlog, hstates]
    exact h.completionSet t'
  · intro t'
    rw [hlog, hstates]
    exact h.hotCompletionSet t'

/-- A task that is released now, and was not before, is no longer pending. -/
theorem Counted.pending_work (h : Counted config s) {w : Worker} {t : Nat} {effect : Effect}
    (hadmitted : t < s.tasks.length) (hmoves : Moves s t w.lane effect)
    (hfresh : progress (s.stage t w.lane) = 8 → Event.released t ∉ s.log) :
    (applyEffect s w t effect).pendingTasks =
      (List.range (applyEffect s w t effect).tasks.length).countP fun t' =>
        decide (Event.released t' ∉ (applyEffect s w t effect).log) := by
  have hlog : (applyEffect s w t effect).log = s.log ++ effect.events := rfl
  have htasks : (applyEffect s w t effect).tasks = s.tasks := rfl
  have hpending : (applyEffect s w t effect).pendingTasks =
      if effect.releases = true ∧ s.pendingTasks ≠ 0 then s.pendingTasks - 1
      else s.pendingTasks := rfl
  obtain ⟨-, hreleased, hreleases, -⟩ := Moves.account hmoves
  have hothers : ∀ t', t' ≠ t →
      decide (Event.released t' ∉ s.log ++ effect.events) =
        decide (Event.released t' ∉ s.log) := by
    intro t' ht
    have hnone : Event.released t' ∉ effect.events :=
      List.count_eq_zero.mp (Moves.foreign hmoves ht).2
    simp [hnone]
  by_cases hlast : progress (s.stage t w.lane) = 8
  · have hbefore := hfresh hlast
    have hnow : Event.released t ∈ s.log ++ effect.events := by
      refine List.mem_append_right _ (List.count_pos_iff.mp ?_)
      rw [hreleased, if_pos hlast]
      exact Nat.one_pos
    have hchange := @countP_change _ (fun t' => decide (Event.released t' ∉ s.log))
      (fun t' => decide (Event.released t' ∉ s.log ++ effect.events)) t
      (List.range s.tasks.length) List.nodup_range (List.mem_range.mpr hadmitted)
      fun t' _ ht => hothers t' ht
    simp only [hbefore, hnow, not_true_eq_false, not_false_eq_true, decide_true, decide_false,
      if_true, Bool.false_eq_true, if_false] at hchange
    have hcount := h.pending
    rw [hpending, if_pos ⟨hreleases.mpr hlast, by omega⟩, hlog, htasks]
    omega
  · have hnone : Event.released t ∉ effect.events := by
      rw [← List.count_eq_zero, hreleased, if_neg hlast]
    rw [hpending, if_neg fun hrel => hlast (hreleases.mp hrel.1), hlog, htasks, h.pending]
    refine List.countP_congr fun t' _ => ?_
    by_cases ht : t' = t
    · rw [ht]
      simp [hnone]
    · rw [hothers t' ht]

/-- Where the lane comes from and goes to: up to the counter, past it, behind it. -/
theorem Moves.passage {t : Nat} {lane : Lane} {effect : Effect} (h : Moves s t lane effect) :
    (progress (s.stage t lane) < 6 ∧ progress effect.stage ≤ 6 ∧
        effect.state.remainingLanes = (s.states t).remainingLanes) ∨
      (progress (s.stage t lane) = 6 ∧
        effect.state.remainingLanes = (s.states t).remainingLanes - 1 ∧
          progress effect.stage = if (s.states t).remainingLanes - 1 = 0 then 7 else 9) ∨
      (7 ≤ progress (s.stage t lane) ∧
        progress effect.stage = progress (s.stage t lane) + 1 ∧
          effect.state.remainingLanes = (s.states t).remainingLanes) := by
  obtain ⟨-, -, -, hbefore, hcounting, hafter⟩ := Moves.account h
  rcases Nat.lt_trichotomy (progress (s.stage t lane)) 6 with hlt | heq | hgt
  · exact Or.inl ⟨hlt, hbefore hlt⟩
  · exact Or.inr (Or.inl ⟨heq, hcounting heq⟩)
  · exact Or.inr (Or.inr ⟨hgt, hafter hgt⟩)

/-- The counts of the task the worker holds. -/
theorem Counted.own_counts (h : Counted config s) {w : Worker} {t : Nat} {effect : Effect}
    (hlane : w.lane ∈ lanes config (s.task t)) (hmoves : Moves s t w.lane effect) :
    effect.state.remainingLanes = stageCount config (applyEffect s w t effect) t isOpen ∧
      (s.log ++ effect.events).countP (completes t) +
          stageCount config (applyEffect s w t effect) t isFinishing =
        (if stageCount config (applyEffect s w t effect) t isOpen = 0 then 1 else 0) ∧
      (s.log ++ effect.events).count (.released t) +
          stageCount config (applyEffect s w t effect) t isReleasing =
        (s.log ++ effect.events).countP (completes t) ∧
      (progress (s.stage t w.lane) = 8 → Event.released t ∉ s.log) := by
  have hmove := @stageCount_move config s (applyEffect s w t effect) t w.lane rfl hlane
    (fun lane' hne => applyEffect_stage_other s w t effect t lane' fun heq => hne heq.2)
  have hopen := hmove isOpen
  have hfinishing := hmove isFinishing
  have hreleasing := hmove isReleasing
  rw [applyEffect_stage_self s w t effect] at hopen hfinishing hreleasing
  simp only [isOpen, decide_eq_true_iff] at hopen
  simp only [isFinishing, decide_eq_true_iff] at hfinishing
  simp only [isReleasing, decide_eq_true_iff] at hreleasing
  obtain ⟨hcompletes, hreleased, -⟩ := Moves.account hmoves
  have hpassage := Moves.passage hmoves
  have hremaining := h.remaining t
  have hcompletion := h.completion t
  have hreleasedSum := h.released t
  rw [List.countP_append, List.count_append, ← List.count_eq_zero]
  refine ⟨?_, ?_, ?_, ?_⟩ <;> grind

/-- After a step each milestone passed is logged once. -/
theorem Counted.once_work (h : Counted config s) {w : Worker} {t : Nat} {effect : Effect}
    (hmoves : Moves s t w.lane effect) (e : Event) (t' : Nat) (lane' : Lane) (k : Nat)
    (he : milestone e = some (t', lane', k)) :
    (s.log ++ effect.events).count e =
      if k ≤ progress ((applyEffect s w t effect).stage t' lane') then 1 else 0 := by
  have hmilestone := Moves.milestone hmoves he
  rw [List.count_append, h.once e t' lane' k he]
  by_cases hsame : t' = t ∧ lane' = w.lane
  · obtain ⟨rfl, rfl⟩ := hsame
    rw [applyEffect_stage_self]
    simp only [true_and, and_self] at hmilestone
    omega
  · rw [applyEffect_stage_other s w t effect t' lane' hsame]
    simp only [hsame, false_and, if_false] at hmilestone
    omega

/-- A step of a worker keeps the counts. -/
theorem Counted.work (h : Counted config s) (howned : Owned config s) {w : Worker} {t : Nat}
    {effect : Effect} (hholding : s.holding w = some t) (hmoves : Moves s t w.lane effect) :
    Counted config (applyEffect s w t effect) := by
  obtain ⟨-, ⟨hadmitted, hlane⟩, -⟩ := howned.holds w t hholding
  obtain ⟨hremaining, hcompletion, hreleased, hfresh⟩ := h.own_counts hlane hmoves
  have hlog : (applyEffect s w t effect).log = s.log ++ effect.events := rfl
  have hstateOwn := applyEffect_states_self s w t effect
  have hstateOther := applyEffect_states_other s w t effect
  have hother : ∀ t' kind, t' ≠ t →
      stageCount config (applyEffect s w t effect) t' kind = stageCount config s t' kind :=
    fun t' kind ht => @stageCount_congr config s (applyEffect s w t effect) t' rfl
      (fun lane => applyEffect_stage_other s w t effect t' lane fun heq => ht heq.1) kind
  refine ⟨h.once_work hmoves, fun t' => ?_, fun t' => ?_, fun t' => ?_, fun t' => ?_,
    h.pending_work hadmitted hmoves hfresh, ?_, fun t' => ?_, fun t' => ?_⟩
  · rw [hlog, List.count_append, Moves.admits_none hmoves, h.accepted, Nat.add_zero]
    rfl
  · by_cases ht : t' = t
    · rw [ht, hstateOwn]
      exact hremaining
    · rw [hstateOther t' ht, hother t' _ ht]
      exact h.remaining t'
  · by_cases ht : t' = t
    · rw [ht]
      exact hcompletion
    · rw [hlog, List.countP_append, (Moves.foreign hmoves ht).1, hother t' _ ht, hother t' _ ht]
      exact h.completion t'
  · by_cases ht : t' = t
    · rw [ht]
      exact hreleased
    · rw [hlog, List.count_append, List.countP_append, (Moves.foreign hmoves ht).1,
        (Moves.foreign hmoves ht).2, hother t' _ ht]
      exact h.released t'
  · have hpending : (applyEffect s w t effect).pendingTasks ≤ s.pendingTasks := by
      show (if _ then s.pendingTasks - 1 else s.pendingTasks) ≤ _
      split
      · exact Nat.sub_le _ _
      · exact Nat.le_refl _
    exact Nat.le_trans hpending h.bounded
  · rw [hlog, List.countP_append]
    by_cases ht : t' = t
    · rw [ht, hstateOwn, (Moves.promises hmoves).1, h.completionSet, (Moves.account hmoves).1]
      by_cases hfinishing : progress (s.stage t w.lane) = 7
      · simp [hfinishing]
      · simp [hfinishing]
    · rw [hstateOther t' ht, (Moves.foreign hmoves ht).1]
      exact h.completionSet t'
  · rw [hlog, List.mem_append]
    by_cases ht : t' = t
    · rw [ht, hstateOwn, (Moves.promises hmoves).2, h.hotCompletionSet]
    · rw [hstateOther t' ht, h.hotCompletionSet]
      exact (or_iff_left fun hmem => ht (Moves.hotCompleted_own hmoves hmem)).symm

/-- Every step keeps the counts. -/
theorem Counted.step (h : Counted config s) (howned : Owned config s) {s' : Executor}
    (hstep : Stepped config s s') : Counted config s' := by
  rcases hstep.shape with hquiet | ⟨call, submission, hcall, hrouted, hopen, hroom, rfl⟩ |
    ⟨w, t, rest, hqueue, rfl⟩ | ⟨w, t, effect, hholding, hmoves, rfl⟩
  · exact h.quiet hquiet
  · have hquiet : Quiet s { s with submissions := Function.update s.submissions call none } :=
      ⟨rfl, rfl, rfl, rfl, rfl, rfl, rfl, rfl, Or.inl rfl⟩
    exact (h.quiet hquiet).admitTask (howned.forget call) hroom submission
  · exact h.pop howned hqueue
  · exact h.work howned hholding hmoves

end ExecutorCounts
