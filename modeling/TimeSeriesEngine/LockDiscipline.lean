import TimeSeriesEngine.LockedOperations

/-!
# Nobody is blocked for ever

Any number of threads run the operations of the hot window, beside the workers of its
pool; their steps interleave, and any policy may decide who gets a mutex.

* `script_flat` — one mutex at a time, for a replacement only while its project has no
  watermark: with one it asks for the size of the window under the lock it would take;
* `nobody_blocked` — no thread asks for what it holds, and none is blocked for ever, in
  every run in which no replacement finds a watermark;
* `replacement_blocked` — a run in which a replacement waits for itself.
-/

namespace LockDiscipline

open TseTypes KeyedTable HotWindow LockScripts LockedOperations Transition

/-! ## One mutex at a time -/

section Flatness

/-- A replacement reads that its project has no watermark; the rest may read anything. -/
def FindsNoWatermark : WindowOperation → WindowService → Prop
  | .replaceDerived projectId _ _, service =>
      service.watermarks.find (effectiveProject projectId) = none
  | _, _ => True

instance (service : WindowService) :
    (operation : WindowOperation) → Decidable (FindsNoWatermark operation service)
  | .replaceDerived projectId _ _ =>
      inferInstanceAs (Decidable (service.watermarks.find (effectiveProject projectId) = none))
  | .windowSize _ | .configure _ _ | .patchDerived .. | .update .. | .queryData _ _
  | .queryStatistics _ _ => isTrue trivial

variable {workerCount capacity : Nat} {walk : List String → List String}
  {sees : WindowService → Prop}

/-- Pruning holds one mutex at a time. -/
theorem pruneScript_flat (start : Timestamp) (keys : List String) {rest : LockScript}
    (h : rest.Flat sees none) : (pruneScript workerCount start keys rest).Flat sees none := by
  rw [pruneScript]
  split
  · exact h
  · split
    · exact runSections_flat _ h
    · exact runTasks_flat _ h

theorem configureScript_flat (projectId : ProjectId) (size : Int) :
    (configureScript workerCount walk projectId size).Flat sees none := by
  rw [configureScript]
  split
  · exact rfl
  · refine ⟨rfl, fun service _ => ⟨rfl, ?_⟩⟩
    split
    · exact rfl
    · exact pruneScript_flat _ _ rfl

theorem replaceScript_flat (projectId : ProjectId) (sequenceId : SequenceId)
    (data : TimeseriesBatch) :
    (replaceScript workerCount walk projectId sequenceId data).Flat
      (FindsNoWatermark (.replaceDerived projectId sequenceId data)) none := by
  rw [replaceScript]
  split
  · exact rfl
  · refine ⟨rfl, rfl, runSections_flat _ ⟨rfl, fun service hnone => ?_⟩⟩
    have hfind : service.watermarks.find (effectiveProject projectId) = none := hnone
    simp only [hfind]
    exact ⟨rfl, rfl⟩

theorem patchScript_flat (projectId : ProjectId) (sequenceId : SequenceId)
    (startTime endTime : Timestamp) (data : TimeseriesBatch) :
    (patchScript projectId sequenceId startTime endTime data).Flat sees none := by
  rw [patchScript]
  split
  · exact rfl
  · exact ⟨rfl, rfl, runSections_flat _ rfl⟩

theorem updateScript_flat (projectId : ProjectId) (data : TimeseriesBatch)
    (override : Option Int) :
    (updateScript workerCount walk projectId data override).Flat sees none := by
  rw [updateScript]
  split
  · exact rfl
  · exact ⟨rfl, fun service _ => ⟨rfl, runTasks_flat _ (pruneScript_flat _ _ rfl)⟩⟩

/-- A query holds one mutex at a time. -/
theorem queryDataScript_flat (projectId : ProjectId) (query : WindowQuery) :
    (queryDataScript capacity projectId query).Flat sees none := by
  rw [queryDataScript]
  split
  · exact rfl
  · split
    · exact rfl
    · refine ⟨rfl, fun service _ => ⟨rfl, ?_⟩⟩
      split
      · exact rfl
      · split
        · exact rfl
        · split
          · exact rfl
          · split
            · exact rfl
            · exact runSections_flat _ rfl

theorem statisticsSections_flat (project : ProjectId) (sequenceIds : List SequenceId) :
    (statisticsSections project sequenceIds).Flat sees none := by
  induction sequenceIds with
  | nil => exact rfl
  | cons sequenceId rest ih =>
      refine ⟨rfl, fun service _ => ⟨rfl, ?_⟩⟩
      split
      · exact ih
      · split
        · exact rfl
        · split
          · exact ih
          · split
            · exact ih
            · exact rfl

theorem queryStatisticsScript_flat (projectId : ProjectId) (sequenceIds : List SequenceId) :
    (queryStatisticsScript projectId sequenceIds).Flat sees none := by
  rw [queryStatisticsScript]
  split
  · exact rfl
  · refine ⟨rfl, fun service _ => ⟨rfl, ?_⟩⟩
    split
    · exact rfl
    · split
      · exact rfl
      · split
        · exact rfl
        · exact statisticsSections_flat _ _

/-- **One mutex at a time**, in every operation. -/
theorem script_flat (operation : WindowOperation) :
    (operation.script workerCount capacity walk).Flat (FindsNoWatermark operation) none := by
  cases operation with
  | windowSize projectId => exact ⟨rfl, fun service _ => ⟨rfl, rfl⟩⟩
  | configure projectId size => exact configureScript_flat projectId size
  | replaceDerived projectId sequenceId data => exact replaceScript_flat projectId sequenceId data
  | patchDerived projectId sequenceId startTime endTime data =>
      exact patchScript_flat projectId sequenceId startTime endTime data
  | update projectId data override => exact updateScript_flat projectId data override
  | queryData projectId query => exact queryDataScript_flat projectId query
  | queryStatistics projectId sequenceIds => exact queryStatisticsScript_flat projectId sequenceIds

end Flatness

/-! ## Every run -/

/-- `n` threads call the service, whose pool has the workers of the environment. -/
abbrev LockState (n : Nat) (parsed : Option Nat) :=
  State MutexId WindowService WindowOperation n (sequenceExecutorWorkerCount parsed)

/-- A thread starts an operation, or acts. -/
abbrev LockStep (n : Nat) (parsed : Option Nat) :=
  Step WindowOperation n (sequenceExecutorWorkerCount parsed)

/-- `std::shared_mutex` leaves open which of the waiting threads gets a mutex. -/
abbrev AdmissionPolicy (n : Nat) (parsed : Option Nat) :=
  Policy MutexId WindowService WindowOperation n (sequenceExecutorWorkerCount parsed)

section Runs

variable {n : Nat} {parsed : Option Nat}

/-- One step of the threads. -/
def lockStep (capacity : Nat) (walk : List String → List String) :
    LockState n parsed → LockStep n parsed → LockState n parsed :=
  step (WindowOperation.script (sequenceExecutorWorkerCount parsed) capacity walk)

/-- No thread asks for a mutex it has, some thread can act while anything is left to do,
    and the operations that run come to an end. -/
structure NobodyBlocked (capacity : Nat) (walk : List String → List String)
    (admits : AdmissionPolicy n parsed) (state : LockState n parsed) : Prop where
  notHeld : ∀ thread, ¬ RequestsHeld state thread
  progress : ¬ Finished state → ∃ thread, CanAct admits state thread
  ends : ¬ Endless (WindowOperation.script (sequenceExecutorWorkerCount parsed) capacity walk)
    admits state

/-- **The locks of the hot window.**  Under every admission policy, in every run in which
    no replacement finds a watermark, nobody asks for what it has and nobody is blocked for
    ever. -/
theorem nobody_blocked (capacity : Nat) (walk : List String → List String)
    {admits : AdmissionPolicy n parsed} (hlawful : Lawful admits) (service : WindowService)
    {steps : List (LockStep n parsed)}
    (hrun : Admissible (lockStep capacity walk)
      (fun state action => Enabled admits state action ∧ Sees FindsNoWatermark state action)
      { data := service } steps) :
    NobodyBlocked capacity walk admits
      (run (lockStep capacity walk) { data := service } steps) := by
  have horderly : Orderly FindsNoWatermark
      (run (lockStep capacity walk) ({ data := service } : LockState n parsed) steps).threads :=
    orderly_run script_flat (hrun.mono fun _ _ h => h.2)
  exact ⟨fun thread => horderly.not_requestsHeld thread,
    fun hleft => horderly.progress (sequenceExecutorWorkerCount_pos parsed) hlawful hleft,
    not_endless _ admits _⟩

end Runs

/-! ## A replacement that waits for itself -/

/-- One point of one sequence. -/
def onePoint : TimeseriesBatch :=
  { points := [{ projectId := "p", sequenceId := "s", time := 0, value := .int64 1 }]
    projectId := "p" }

/-- The first thread updates the project, then replaces a derived sequence; while it holds
    `mutex_`, the second asks for it. -/
def blockedSteps : List (LockStep 2 none) :=
  .start 0 (.update "p" onePoint none) ::
    List.replicate 6 (.act (.inl 0)) ++
    List.replicate 5 (.act (.inr ⟨0, sequenceExecutorWorkerCount_pos none⟩)) ++
    List.replicate 5 (.act (.inl 0)) ++
    .start 0 (.replaceDerived "p" "d" { projectId := "p" }) ::
    List.replicate 11 (.act (.inl 0)) ++
    .start 1 (.configure "p" 10) :: .act (.inl 1) :: [.act (.inl 0)]

/-- Where nobody can go on. -/
def blockedState : LockState 2 none := run (lockStep 0 id) { data := {} } blockedSteps

theorem blockedSteps_enabled :
    Admissible (lockStep 0 id) (Enabled writerFirst) ({ data := {} } : LockState 2 none)
      blockedSteps := by
  decide +kernel

/-- The first thread asks for the mutex it holds; it waits behind the second, which waits
    for it. -/
theorem replacement_blocked :
    Lawful (writerFirst : AdmissionPolicy 2 none) ∧
      Admissible (lockStep 0 id) (Enabled writerFirst) ({ data := {} } : LockState 2 none)
        blockedSteps ∧
      RequestsHeld blockedState (.inl 0) ∧ ¬ Finished blockedState ∧
      ∀ action, ¬ Enabled writerFirst blockedState action := by
  refine ⟨writerFirst_lawful, blockedSteps_enabled, ?_, ?_, ?_⟩
  · refine ⟨.service, ⟨.shared, ?_⟩, (.service, .shared), ?_, rfl⟩
    · decide +kernel
    · decide +kernel
  · rintro ⟨hdone, -⟩
    have hrunning : (blockedState.threads (.inl 0)).script.isDone = false := by decide +kernel
    rw [hdone (.inl 0)] at hrunning
    cases hrunning
  · have hstart : ∀ client : Fin 2, ¬ (blockedState.threads (.inl client)).script.isDone = true := by
      decide +kernel
    have hact : ∀ thread, ¬ CanAct writerFirst blockedState thread := by decide +kernel
    intro action
    cases action with
    | start client program => exact hstart client
    | act thread => exact hact thread

/-- The same two threads, before the project has a watermark. -/
def unblockedSteps : List (LockStep 2 none) :=
  .start 0 (.replaceDerived "p" "d" { projectId := "p" }) ::
    List.replicate 11 (.act (.inl 0)) ++
    .start 1 (.configure "p" 10) :: .act (.inl 1) :: [.act (.inl 0)]

/-- Two threads that do not get in each other's way. -/
theorem nobody_blocked_unblocked :
    NobodyBlocked 0 id writerFirst
      (run (lockStep 0 id) ({ data := {} } : LockState 2 none) unblockedSteps) := by
  refine nobody_blocked 0 id writerFirst_lawful {} ?_
  decide +kernel

end LockDiscipline
