import TimeSeriesEngine.ColdWriteOrder
import TimeSeriesEngine.ConcurrentUpdates
import TimeSeriesEngine.FullRefresh
import TimeSeriesEngine.ProjectView

/-!
# The two stores agree

The executor, the database and the hot window run together, with any number of hot and cold
workers.  A hot worker that is in its callback updates the window of its task: it fixes a
window start, writes sequence by sequence and prunes sequence by sequence, while the other
workers do what they do.  Derived series, which the callback writes under keys of their own,
are left out.

* `step` — a step of the executor or the database, or one of a hot update;
* `Held` — the window holds the last written points of the first so many tasks;
* `stores_agree` — when all callbacks have returned, a retained point is in the database
  with the same value, and a row of the live window is retained;
* `hot_reads_fresh` — while updates are under way, nothing that has returned is missing or
  behind what an earlier task wrote.
-/

namespace StoreAgreement

open TseTypes KeyedTable OrderedSeries HotWindow WindowUpdate WindowRefinement WindowContent
open SeqWindow SeqContent TaosClient IngestExecutor ExecutorOwnership ExecutorCounts
open ExecutorHotOrder ExecutorRouting ColdWriteOrder EventLog InOrder Transition ProjectView
open UpdateRange
open ConcurrentUpdates (UpdateState CallState after after_enter after_enter_rejected setCall_self
  setCall_other calls_after entered mem_entered)

/-! ## The system -/

/-- The executor with its database, and the hot window. -/
structure Pipeline where
  cold : ColdStore := {}
  /-- The hot update of a task is the call of its number. -/
  hot : UpdateState
  /-- The hot callback of the task has fixed its window start. -/
  entered : Nat → Bool := fun _ => false

/-- A step of the executor or the database, or one of a hot update. -/
inductive Action where
  /-- A step of the executor or of the database. -/
  | cold (action : ColdWriteOrder.Action)
  | enter (t : Nat)
  | update (t : Nat) (sequenceId : SequenceId)
  | prune (t : Nat) (key : String)

/-- The hot callback of a task runs. -/
def calling (s : Pipeline) (t : Nat) : Bool :=
  match s.cold.executor.stage t .hot with
  | .calling => true
  | _ => false

/-- The project of a task. -/
def projectOf (s : Pipeline) (t : Nat) : ProjectId := (s.cold.executor.task t).data.projectId

/-- The callback of a hot worker is not over. -/
def occupied (s : Pipeline) : ColdWriteOrder.Action → Bool
  | .executor (.work (.hot index) _) =>
      match s.cold.executor.holding (.hot index) with
      | none => false
      | some t =>
          calling s t && !(s.entered t && (s.hot.calls t).pending.isEmpty &&
            (s.hot.calls t).unpruned.isEmpty)
  | _ => false

section Model

variable (config : Config) (baseName : String) (reaches : Nat → Nat → Bool)

/-- One step; a hot update moves only while its callback runs. -/
def step (s : Pipeline) : Action → Pipeline
  | .cold action =>
      if occupied s action then s
      else { s with cold := ColdWriteOrder.step config baseName reaches s.cold action }
  | .enter t =>
      if calling s t && !s.entered t then
        { s with
          hot := after (projectOf s t) s.hot (.enter t (s.cold.executor.task t).data none)
          entered := Function.update s.entered t true }
      else s
  | .update t sequenceId =>
      if calling s t then
        match (s.hot.calls t).pending.find? fun prepared =>
            decide (prepared.sequenceId = sequenceId) with
        | none => s
        | some prepared => { s with hot := after (projectOf s t) s.hot (.update t prepared) }
      else s
  | .prune t key =>
      if calling s t && (s.hot.calls t).pending.isEmpty &&
          decide (key ∈ (s.hot.calls t).unpruned) then
        { s with hot := after (projectOf s t) s.hot (.prune t key) }
      else s

/-- A start with nothing stored, and window sizes configured in front of it. -/
def start (sizes : Table ProjectId Int) : Pipeline where
  hot := { service := { windowSizes := sizes } }

/-- The state after an interleaving. -/
def reached (sizes : Table ProjectId Int) (actions : List Action) : Pipeline :=
  run (step config baseName reaches) (start sizes) actions

end Model

/-- The hot window takes the batch of a task. -/
def taken (s : Executor) (t : Nat) : Bool :=
  (readBatch (s.task t).data.projectId (s.task t).data none).2.isNone

/-- What a hot update writes for a sequence. -/
def hotWork (s : Executor) (p : ProjectId) (id : SequenceId) (t : Nat) : List RawTimeseriesPoint :=
  if (s.task t).data.projectId = p ∧ taken s t = true then
    incomingFor id (s.task t).data.points
  else []

/-- The row of a sequence at a time. -/
def rowAt (database : Database) (p : ProjectId) (id : SequenceId) (time : Timestamp) :
    Option ValueColumns :=
  (database.find (tableName p id)).bind fun child => child.rows.find time

/-- A task is taken when its batch is accepted. -/
theorem taken_iff {s : Executor} {t : Nat} :
    taken s t = true ↔ Accepted (s.task t).data.projectId (s.task t).data none := by
  rw [taken]
  rcases readBatch_cases (s.task t).data.projectId (s.task t).data none with
    ⟨haccepted, heq⟩ | ⟨hrejected, result, error, heq⟩
  · rw [heq]
    exact iff_of_true rfl haccepted
  · rw [heq]
    exact iff_of_false Bool.false_ne_true hrejected

/-- Where a task brings something to a sequence. -/
theorem hotWork_some {s : Executor} {p : ProjectId} {id : SequenceId} {t : Nat}
    (h : hotWork s p id t ≠ []) : (s.task t).data.projectId = p ∧ taken s t = true ∧
      hotWork s p id t = incomingFor id (s.task t).data.points ∧
      ∃ point ∈ (s.task t).data.points, point.sequenceId = id := by
  rw [hotWork] at h ⊢
  split at h
  · rename_i htakes
    rw [if_pos htakes]
    obtain ⟨point, hpoint⟩ := List.exists_mem_of_ne_nil _ h
    exact ⟨htakes.1, htakes.2, rfl, point, mem_incomingFor.mp hpoint⟩
  · exact absurd rfl h

theorem hotWork_congr {s s' : Executor} {t : Nat} (h : s'.task t = s.task t) (p : ProjectId)
    (id : SequenceId) : hotWork s' p id t = hotWork s p id t := by
  rw [hotWork, hotWork, taken, taken, h]

/-! ## The invariant -/

section Invariant

variable (p : ProjectId) (id : SequenceId)

/-- The hot update of the task has written what it has for the sequence. -/
def HotWrote (s : Pipeline) (t : Nat) : Prop :=
  3 ≤ progress (s.cold.executor.stage t .hot) ∨
    s.cold.executor.stage t .hot = .calling ∧ s.entered t = true ∧
      ∀ prepared ∈ (s.hot.calls t).pending, prepared.sequenceId ≠ id

/-- The time is in the window of the project. -/
def Live (service : WindowService) (time : Timestamp) : Prop :=
  ∀ watermark, service.watermarks.find (effectiveProject p) = some watermark →
    windowStart watermark (windowSize p service) ≤ time

/-- The window holds, of what the first so many tasks wrote, nothing but the last point at
    each time, and all of these that are in the window. -/
def Held (s : Pipeline) : Prop :=
  ∃ content, DoneInOrder (hotWork s.cold.executor p id) (HotWrote id s)
      s.cold.executor.tasks.length content ∧
    (∀ q ∈ retained p id s.hot.service, lastAt RawTimeseriesPoint.time q.time content = some q) ∧
    ∀ time q, Live p s.hot.service time →
      lastAt RawTimeseriesPoint.time time content = some q → q ∈ retained p id s.hot.service

/-- A task is of the project, or of one whose keys do not run into those of the project. -/
def TasksApart (s : Executor) : Prop :=
  ∀ t < s.tasks.length, (s.task t).data.projectId = p ∨ Separate p (s.task t).data.projectId

/-- What a running hot update still has to write is from its batch. -/
structure FromBatch (s : Pipeline) (t : Nat) (prepared : PreparedSequenceUpdate) : Prop where
  taken : taken s.cold.executor t = true
  batch : prepared = prepareUpdate prepared.sequenceId
    (incomingFor prepared.sequenceId (s.cold.executor.task t).data.points)
  points : ∃ point ∈ (s.cold.executor.task t).data.points, point.sequenceId = prepared.sequenceId
  stored :
    scopedSequenceKey (projectOf s t) prepared.sequenceId ∈ s.hot.service.sequenceWindows.keys

/-- The invariant of a run. -/
structure Sound (config : Config) (baseName : String) (reaches : Nat → Nat → Bool)
    (sizes : Table ProjectId Int) (s : Pipeline) : Prop where
  executed : ∃ actions, s.cold = ColdWriteOrder.reached config baseName reaches actions
  valid : AllValid s.hot.service.sequenceWindows
  sizes : s.hot.service.windowSizes = sizes
  entered : ∀ t, s.entered t = true → 2 ≤ progress (s.cold.executor.stage t .hot)
  running : ∀ t, (s.hot.calls t).Idle ∨
    s.cold.executor.stage t .hot = .calling ∧ s.entered t = true
  pending : ∀ t, ∀ prepared ∈ (s.hot.calls t).pending, FromBatch s t prepared
  keys : ∀ t, ∀ key ∈ (s.hot.calls t).unpruned, ownKey (projectOf s t) key = true
  starts : ∀ t, ¬ (s.hot.calls t).Idle → projectOf s t = p → ∃ watermark,
    s.hot.service.watermarks.find (effectiveProject p) = some watermark ∧
      (s.hot.calls t).windowStart ≤ windowStart watermark (windowSize p s.hot.service)
  held : TasksApart p s.cold.executor → Held p id s

end Invariant

variable {config : Config} {baseName : String} {reaches : Nat → Nat → Bool}
  {sizes : Table ProjectId Int} {p : ProjectId} {id : SequenceId} {s : Pipeline}

theorem executed_executor (h : Sound p id config baseName reaches sizes s) :
    ∃ actions, s.cold.executor = IngestExecutor.reached config actions := by
  obtain ⟨actions, hactions⟩ := h.executed
  rw [hactions]
  have hapart : NamesApart [] := fun _ h => absurd h List.not_mem_nil
  exact (serial_reached hapart actions).executed

theorem settled_of_sound (h : Sound p id config baseName reaches sizes s) :
    Owned config s.cold.executor ∧ Settled config s.cold.executor := by
  obtain ⟨actions, hactions⟩ := executed_executor h
  rw [hactions]
  exact reached_settled config actions

theorem lt_of_calling {e : Executor} (howned : Owned config e) {t : Nat} {lane : Lane}
    (h : e.stage t lane = .calling) : t < e.tasks.length := by
  by_contra hge
  rw [howned.unadmitted (not_lt.mp hge) lane] at h
  cases h

theorem calling_iff {t : Nat} : calling s t = true ↔ s.cold.executor.stage t .hot = .calling := by
  rw [calling]
  cases s.cold.executor.stage t .hot <;> simp

/-! ## Steps of the executor and the database -/

/-- A step that changes the executor, but not what the hot updates have done. -/
theorem Sound.base (h : Sound p id config baseName reaches sizes s) {cold : ColdStore}
    (hexecuted : ∃ actions, cold = ColdWriteOrder.reached config baseName reaches actions)
    (htasks : cold.executor.tasks = s.cold.executor.tasks ∨
      ∃ task, cold.executor.tasks = s.cold.executor.tasks ++ [task])
    (hentered : ∀ t, s.entered t = true → 2 ≤ progress (cold.executor.stage t .hot))
    (hrunning : ∀ t, (s.hot.calls t).Idle ∨
      cold.executor.stage t .hot = .calling ∧ s.entered t = true)
    (hwrote : ∀ t < s.cold.executor.tasks.length,
      (HotWrote id { s with cold := cold } t ↔ HotWrote id s t))
    (hnew : ¬ HotWrote id { s with cold := cold } s.cold.executor.tasks.length) :
    Sound p id config baseName reaches sizes { s with cold := cold } := by
  obtain ⟨howned, -⟩ := settled_of_sound h
  have hlive : ∀ t, ¬ (s.hot.calls t).Idle → cold.executor.task t = s.cold.executor.task t := by
    intro t hsome
    obtain ⟨hcalling, -⟩ := (h.running t).resolve_left hsome
    exact task_kept htasks (lt_of_calling howned hcalling)
  have hproject : ∀ t, ¬ (s.hot.calls t).Idle →
      projectOf { s with cold := cold } t = projectOf s t := by
    intro t hsome
    show (cold.executor.task t).data.projectId = _
    rw [hlive t hsome]
    rfl
  refine ⟨hexecuted, h.valid, h.sizes, hentered, hrunning, fun t prepared hmem => ?_,
    fun t key hmem => ?_, fun t hsome hown => ?_, fun hapart => ?_⟩
  · have hsome : ¬ (s.hot.calls t).Idle := fun hidle => by
      rw [hidle.1] at hmem
      cases hmem
    obtain ⟨htaken, hprepared, hpoints, hstored⟩ := h.pending t prepared hmem
    refine ⟨?_, ?_, ?_, ?_⟩
    · show taken cold.executor t = true
      rw [taken, hlive t hsome]
      exact htaken
    · show prepared = prepareUpdate _ (incomingFor _ (cold.executor.task t).data.points)
      rw [hlive t hsome]
      exact hprepared
    · show ∃ point ∈ (cold.executor.task t).data.points, _
      rw [hlive t hsome]
      exact hpoints
    · rw [hproject t hsome]
      exact hstored
  · have hsome : ¬ (s.hot.calls t).Idle := fun hidle => by
      rw [hidle.2] at hmem
      cases hmem
    rw [hproject t hsome]
    exact h.keys t key hmem
  · rw [hproject t hsome] at hown
    exact h.starts t hsome hown
  · have hold : TasksApart p s.cold.executor := by
      intro t ht
      have ht' : t < cold.executor.tasks.length := by
        rcases htasks with hsame | ⟨task, hnext⟩
        · rw [hsame]
          exact ht
        · rw [hnext, List.length_append]
          exact Nat.lt_add_right _ ht
      have hone := hapart t ht'
      rwa [task_kept htasks ht] at hone
    obtain ⟨content, hdone, hlast, hkept⟩ := h.held hold
    refine ⟨content, ?_, hlast, hkept⟩
    have hcongr : DoneInOrder (hotWork cold.executor p id) (HotWrote id { s with cold := cold })
        s.cold.executor.tasks.length content :=
      hdone.congr (fun t ht => hotWork_congr (task_kept htasks ht) p id) fun t ht _ => hwrote t ht
    rcases htasks with hsame | ⟨task, hnext⟩
    · show DoneInOrder _ _ cold.executor.tasks.length content
      rw [hsame]
      exact hcongr
    · show DoneInOrder _ _ cold.executor.tasks.length content
      rw [hnext, List.length_append]
      exact hcongr.admit fun _ => hnew

/-- A step of the executor that no hot worker takes. -/
theorem Sound.frame (h : Sound p id config baseName reaches sizes s) {cold : ColdStore}
    (hexecuted : ∃ actions, cold = ColdWriteOrder.reached config baseName reaches actions)
    (hframe : LaneFrame .hot s.cold.executor cold.executor) :
    Sound p id config baseName reaches sizes { s with cold := cold } := by
  obtain ⟨howned, -⟩ := settled_of_sound h
  have hwrote : ∀ t, HotWrote id { s with cold := cold } t ↔ HotWrote id s t := by
    intro t
    show (3 ≤ progress (cold.executor.stage t .hot) ∨ cold.executor.stage t .hot = .calling ∧ _) ↔ _
    rw [HotWrote]
    rcases hframe.stages t with hsame | ⟨hqueued, waited, hwaiting⟩
    · rw [hsame]
    · rw [hqueued, hwaiting]
      simp [progress]
  refine h.base hexecuted hframe.tasks (fun t hentered => ?_) (fun t => ?_) (fun t _ => hwrote t) ?_
  · rcases hframe.stages t with hsame | ⟨hqueued, -⟩
    · rw [hsame]
      exact h.entered t hentered
    · have htwo := h.entered t hentered
      rw [hqueued] at htwo
      exact absurd htwo (by decide)
  · refine (h.running t).imp_right fun hrunning => ⟨?_, hrunning.2⟩
    rcases hframe.stages t with hsame | ⟨hqueued, -⟩
    · exact hsame.trans hrunning.1
    · have hcalling := hrunning.1
      rw [hqueued] at hcalling
      cases hcalling
  · rw [hwrote, HotWrote, howned.unadmitted (le_refl _)]
    simp [progress]

/-- A step of a hot worker whose callback, if it runs, is over. -/
theorem Sound.hotWorker (h : Sound p id config baseName reaches sizes s) {cold : ColdStore}
    (hexecuted : ∃ actions, cold = ColdWriteOrder.reached config baseName reaches actions)
    {w : Worker} {t : Nat} {effect : Effect} (hmoves : Moves s.cold.executor t .hot effect)
    (hlane : w.lane = .hot) (hnext : cold.executor = applyEffect s.cold.executor w t effect)
    (hover : s.cold.executor.stage t .hot = .calling →
      s.entered t = true ∧ (s.hot.calls t).Idle) :
    Sound p id config baseName reaches sizes { s with cold := cold } := by
  obtain ⟨howned, -⟩ := settled_of_sound h
  have hself : cold.executor.stage t .hot = effect.stage := by
    rw [hnext, ← hlane]
    exact setStage_self s.cold.executor.stage t w.lane effect.stage
  have hothers : ∀ a, a ≠ t → cold.executor.stage a .hot = s.cold.executor.stage a .hot := by
    intro a hne
    rw [hnext]
    exact setStage_other (fun hsame => hne hsame.1) effect.stage
  have hidle : (s.hot.calls t).Idle := by
    refine (h.running t).elim (fun hidle => hidle) fun hrunning => (hover hrunning.1).2
  -- before the callback nothing is written, behind it everything
  have hmoved : (3 ≤ progress effect.stage ∨ effect.stage = .calling ∧ s.entered t = true ↔
        3 ≤ progress (s.cold.executor.stage t .hot) ∨
          s.cold.executor.stage t .hot = .calling ∧ s.entered t = true) ∧
      (s.entered t = true → 2 ≤ progress effect.stage) := by
    have hentered := h.entered t
    cases hmoves with
    | waited hstage hdone =>
        rw [hstage] at hentered ⊢
        simp [progress] at hentered ⊢
        exact hentered
    | start hstage =>
        rw [hstage] at hentered ⊢
        simp [progress] at hentered ⊢
        exact hentered
    | hotReturn result hstage =>
        have hyes := (hover hstage).1
        simp [progress, hstage, hyes]
    | order hstage | answer _ _ hstage | announce hstage | countLast hstage | count hstage
    | finish hstage | release hstage => simp [progress, hstage]
  have hwrote : ∀ a, HotWrote id { s with cold := cold } a ↔ HotWrote id s a := by
    intro a
    by_cases ha : a = t
    · subst ha
      have hnothing : ∀ prepared ∈ (s.hot.calls a).pending, prepared.sequenceId ≠ id := by
        rw [hidle.1]
        exact fun _ hmem => absurd hmem List.not_mem_nil
      show (3 ≤ progress (cold.executor.stage a .hot) ∨ cold.executor.stage a .hot = .calling ∧
        s.entered a = true ∧ _) ↔ _
      rw [HotWrote, hself]
      simp only [and_iff_left hnothing]
      exact hmoved.1
    · show (3 ≤ progress (cold.executor.stage a .hot) ∨
        cold.executor.stage a .hot = .calling ∧ _) ↔ _
      rw [HotWrote, hothers a ha]
  refine h.base hexecuted (Or.inl (by rw [hnext]; rfl)) (fun a hentered => ?_) (fun a => ?_)
    (fun a _ => hwrote a) ?_
  · by_cases ha : a = t
    · subst ha
      rw [hself]
      exact hmoved.2 hentered
    · rw [hothers a ha]
      exact h.entered a hentered
  · by_cases ha : a = t
    · subst ha
      exact Or.inl hidle
    · rw [hothers a ha]
      exact h.running a
  · rw [hwrote, HotWrote, howned.unadmitted (le_refl _)]
    simp [progress]

/-- What a step of the cold store does to the executor. -/
theorem executor_step (cold : ColdStore) (action : ColdWriteOrder.Action) :
    (ColdWriteOrder.step config baseName reaches cold action).executor = cold.executor ∨
      ∃ one, action = .executor one ∧
        (ColdWriteOrder.step config baseName reaches cold action).executor =
          perform config cold.executor one := by
  cases action with
  | write index id =>
      rw [ColdWriteOrder.step]
      split
      · split <;> exact Or.inl rfl
      · exact Or.inl rfl
  | executor action =>
      cases action with
      | work w callback =>
          cases w with
          | hot index => exact Or.inr ⟨_, rfl, rfl⟩
          | cold index =>
              rw [ColdWriteOrder.step]
              cases cold.executor.holding (.cold index) with
              | none => exact Or.inl rfl
              | some t =>
                  simp only
                  split
                  · exact Or.inr ⟨_, rfl, rfl⟩
                  · split
                    · exact Or.inr ⟨_, rfl, rfl⟩
                    · exact Or.inl rfl
                  · exact Or.inr ⟨_, rfl, rfl⟩
      | submit call request => exact Or.inr ⟨_, rfl, rfl⟩
      | route call => exact Or.inr ⟨_, rfl, rfl⟩
      | admission call => exact Or.inr ⟨_, rfl, rfl⟩
      | pop w => exact Or.inr ⟨_, rfl, rfl⟩
      | exit w => exact Or.inr ⟨_, rfl, rfl⟩
      | stop => exact Or.inr ⟨_, rfl, rfl⟩

/-- **A step of the executor or the database.** -/
theorem Sound.cold (h : Sound p id config baseName reaches sizes s)
    {action : ColdWriteOrder.Action} (hfree : occupied s action = false) :
    Sound p id config baseName reaches sizes
      { s with cold := ColdWriteOrder.step config baseName reaches s.cold action } := by
  obtain ⟨howned, -⟩ := settled_of_sound h
  have hexecuted : ∃ actions, ColdWriteOrder.step config baseName reaches s.cold action =
      ColdWriteOrder.reached config baseName reaches actions := by
    obtain ⟨actions, hactions⟩ := h.executed
    refine ⟨actions ++ [action], ?_⟩
    rw [hactions]
    exact (run_append (ColdWriteOrder.step config baseName reaches) {} actions [action]).symm
  rcases @executor_step config baseName reaches s.cold action with hsame | ⟨one, rfl, hnext⟩
  · exact h.frame hexecuted (.same (by rw [hsame]) (by rw [hsame]) (by rw [hsame]))
  by_cases hhot : ∃ index callback, one = .work (.hot index) callback
  · obtain ⟨index, callback, rfl⟩ := hhot
    rcases workerStep_cases howned (.hot index) callback with
      hsame | ⟨t, effect, hheld, hmoves, heq⟩
    · rw [hsame] at hnext
      exact h.frame hexecuted (.same (by rw [hnext]) (by rw [hnext]) (by rw [hnext]))
    · refine h.hotWorker hexecuted hmoves rfl (hnext.trans heq) fun hcalling => ?_
      rw [occupied, hheld] at hfree
      simp only [calling_iff.mpr hcalling, Bool.true_and, Bool.not_eq_false', Bool.and_eq_true,
        List.isEmpty_iff] at hfree
      exact ⟨hfree.1.1, hfree.1.2, hfree.2⟩
  · refine h.frame hexecuted ?_
    rw [hnext]
    refine laneFrame_perform howned .hot fun w callback hlane heq => ?_
    cases w with
    | hot index => exact hhot ⟨index, callback, heq⟩
    | cold index => cases hlane

/-! ## Steps of the hot updates -/

theorem lastAt_append (time : Timestamp) (xs ys : List RawTimeseriesPoint) :
    lastAt RawTimeseriesPoint.time time (xs ++ ys) =
      (lastAt RawTimeseriesPoint.time time ys).or (lastAt RawTimeseriesPoint.time time xs) := by
  rw [lastAt, lastAt, lastAt, List.filter_append, List.getLast?_append]

/-- The last point of many tasks is the last of one, and the later ones have none. -/
theorem lastAt_range {work : Nat → List RawTimeseriesPoint} {time : Timestamp} {n : Nat}
    {q : RawTimeseriesPoint}
    (h : lastAt RawTimeseriesPoint.time time ((List.range n).flatMap work) = some q) :
    ∃ u < n, lastAt RawTimeseriesPoint.time time (work u) = some q ∧
      ∀ t, u < t → t < n → lastAt RawTimeseriesPoint.time time (work t) = none := by
  induction n with
  | zero => cases h
  | succ n ih =>
      rw [List.range_succ, List.flatMap_append, List.flatMap_singleton, lastAt_append] at h
      cases hlast : lastAt RawTimeseriesPoint.time time (work n) with
      | some newest =>
          rw [hlast] at h
          cases h
          exact ⟨n, Nat.lt_succ_self n, hlast, fun t hlt ht =>
            absurd (Nat.le_of_lt_succ ht) (not_le.mpr hlt)⟩
      | none =>
          rw [hlast] at h
          obtain ⟨u, hu, hq, hnone⟩ := ih h
          refine ⟨u, Nat.lt_succ_of_lt hu, hq, fun t hlt ht => ?_⟩
          rcases Nat.lt_succ_iff_lt_or_eq.mp ht with hbefore | rfl
          · exact hnone t hlt hbefore
          · exact hlast

/-- The watermark only moves on. -/
theorem advanceWatermark_ge (watermark : Timestamp) (points : List RawTimeseriesPoint) :
    watermark ≤ advanceWatermark (some watermark) points := by
  rw [advanceWatermark_eq, modelWatermark]
  induction points generalizing watermark with
  | nil => exact le_refl _
  | cons q points ih => exact (le_max_left _ _).trans (ih (max watermark q.time))

/-- The window start of a project moves on when a call enters, whosever it is. -/
theorem windowStart_entered (t : Nat) (hsizes : s.hot.service.windowSizes = sizes) :
    let service := (entered (projectOf s t) (s.cold.executor.task t).data none s.hot.service).1
    service.windowSizes = sizes ∧
      ∀ watermark, s.hot.service.watermarks.find (effectiveProject p) = some watermark →
        ∃ watermark', service.watermarks.find (effectiveProject p) = some watermark' ∧
          windowStart watermark (windowSize p s.hot.service) ≤
            windowStart watermark' (windowSize p service) := by
  intro service
  refine ⟨hsizes, fun watermark hfind => ?_⟩
  have hput : service.watermarks.find (effectiveProject p) =
      if effectiveProject p = effectiveProject (projectOf s t) then
        some (advanceWatermark (s.hot.service.watermarks.find (effectiveProject (projectOf s t)))
          (s.cold.executor.task t).data.points)
      else s.hot.service.watermarks.find (effectiveProject p) := find_put ..
  by_cases hself : effectiveProject p = effectiveProject (projectOf s t)
  · rw [if_pos hself, ← hself, hfind] at hput
    exact ⟨_, hput, FullRefresh.windowStart_mono (advanceWatermark_ge _ _)⟩
  · rw [if_neg hself] at hput
    exact ⟨watermark, hput.trans hfind, le_refl _⟩

/-- A step of the hot update of a task, up to what it does to the sequence. -/
theorem Sound.hotStep (h : Sound p id config baseName reaches sizes s) {t : Nat}
    {hot : UpdateState} {entered : Nat → Bool}
    (hcalling : s.cold.executor.stage t .hot = .calling) (hself : entered t = true)
    (hentered : ∀ a, a ≠ t → entered a = s.entered a)
    (hcalls : ∀ a, a ≠ t → hot.calls a = s.hot.calls a)
    (hvalid : AllValid hot.service.sequenceWindows)
    (hsizes : hot.service.windowSizes = sizes)
    (hkeys : ∀ key ∈ s.hot.service.sequenceWindows.keys, key ∈ hot.service.sequenceWindows.keys)
    (hpending : ∀ prepared ∈ (hot.calls t).pending,
      FromBatch { s with hot := hot, entered := entered } t prepared)
    (hown : ∀ key ∈ (hot.calls t).unpruned, ownKey (projectOf s t) key = true)
    (hwatermark : ∀ watermark,
      s.hot.service.watermarks.find (effectiveProject p) = some watermark →
        ∃ watermark', hot.service.watermarks.find (effectiveProject p) = some watermark' ∧
          windowStart watermark (windowSize p s.hot.service) ≤
            windowStart watermark' (windowSize p hot.service))
    (hstart : ¬ (hot.calls t).Idle → projectOf s t = p → ∃ watermark,
      hot.service.watermarks.find (effectiveProject p) = some watermark ∧
        (hot.calls t).windowStart ≤ windowStart watermark (windowSize p hot.service))
    (hheld : TasksApart p s.cold.executor →
      Held p id { s with hot := hot, entered := entered }) :
    Sound p id config baseName reaches sizes { s with hot := hot, entered := entered } := by
  refine ⟨h.executed, hvalid, hsizes, fun a ha => ?_, fun a => ?_, fun a prepared hmem => ?_,
    fun a key hmem => ?_, fun a hsome howner => ?_, hheld⟩
  · by_cases hat : a = t
    · show 2 ≤ progress (s.cold.executor.stage a .hot)
      rw [hat, hcalling]
      decide
    · exact h.entered a ((hentered a hat).symm.trans ha)
  · by_cases hat : a = t
    · subst hat
      exact Or.inr ⟨hcalling, hself⟩
    · show (hot.calls a).Idle ∨ _ ∧ entered a = true
      rw [hcalls a hat, hentered a hat]
      exact h.running a
  · by_cases hat : a = t
    · subst hat
      exact hpending prepared hmem
    · have hold : prepared ∈ (s.hot.calls a).pending := hcalls a hat ▸ hmem
      obtain ⟨htaken, hbatch, hpoints, hstored⟩ := h.pending a prepared hold
      exact ⟨htaken, hbatch, hpoints, hkeys _ hstored⟩
  · by_cases hat : a = t
    · subst hat
      exact hown key hmem
    · have hold : key ∈ (s.hot.calls a).unpruned := hcalls a hat ▸ hmem
      exact h.keys a key hold
  · by_cases hat : a = t
    · subst hat
      exact hstart hsome howner
    · have hold : ¬ (s.hot.calls a).Idle := hcalls a hat ▸ hsome
      obtain ⟨watermark, hfind, hle⟩ := h.starts a hold howner
      obtain ⟨watermark', hfind', hle'⟩ := hwatermark watermark hfind
      refine ⟨watermark', hfind', ?_⟩
      show (hot.calls a).windowStart ≤ _
      rw [hcalls a hat]
      exact hle.trans hle'

/-- A time of the later window is one of the earlier. -/
theorem live_before {hot : UpdateState}
    (hwatermark : ∀ watermark,
      s.hot.service.watermarks.find (effectiveProject p) = some watermark →
        ∃ watermark', hot.service.watermarks.find (effectiveProject p) = some watermark' ∧
          windowStart watermark (windowSize p s.hot.service) ≤
            windowStart watermark' (windowSize p hot.service)) {time : Timestamp}
    (h : Live p hot.service time) : Live p s.hot.service time := by
  intro watermark hfind
  obtain ⟨watermark', hfind', hle⟩ := hwatermark watermark hfind
  exact hle.trans (h watermark' hfind')

/-- The other tasks have written what they had written. -/
theorem hotWrote_other {t a : Nat} (ha : a ≠ t) {hot : UpdateState} {entered : Nat → Bool}
    (hentered : ∀ a, a ≠ t → entered a = s.entered a)
    (hcalls : ∀ a, a ≠ t → hot.calls a = s.hot.calls a) :
    HotWrote id { s with hot := hot, entered := entered } a ↔ HotWrote id s a := by
  show (_ ∨ _ ∧ entered a = true ∧ ∀ prepared ∈ (hot.calls a).pending, _) ↔ _
  rw [HotWrote, hentered a ha, hcalls a ha]

/-- A hot update fixes its window start. -/
theorem Sound.enter (h : Sound p id config baseName reaches sizes s) {t : Nat}
    (hcalling : s.cold.executor.stage t .hot = .calling) (hfresh : s.entered t = false) :
    Sound p id config baseName reaches sizes
      { s with
        hot := after (projectOf s t) s.hot (.enter t (s.cold.executor.task t).data none)
        entered := Function.update s.entered t true } := by
  have hopen : ¬ HotWrote id s t := by
    rw [HotWrote, hcalling, hfresh]
    simp [progress]
  have hentered : ∀ a, a ≠ t → Function.update s.entered t true a = s.entered a :=
    fun a ha => Function.update_of_ne ha _ _
  have hcalls : ∀ a, a ≠ t → (after (projectOf s t) s.hot
      (.enter t (s.cold.executor.task t).data none)).calls a = s.hot.calls a :=
    fun a ha => calls_after ha
  by_cases htakes : taken s.cold.executor t = true
  · have haccepted := taken_iff.mp htakes
    have hafter : after (projectOf s t) s.hot (.enter t (s.cold.executor.task t).data none) = _ :=
      after_enter haccepted s.hot t
    rw [hafter] at hcalls ⊢
    obtain ⟨hsizes, hwatermark⟩ := @windowStart_entered sizes p s t h.sizes
    refine h.hotStep hcalling (Function.update_self ..) hentered hcalls
      (createSequences_valid h.valid _ _) hsizes (fun key hkey => ?_) (fun prepared hmem => ?_)
      (fun key hmem => ?_) hwatermark (fun _ howner => ?_) (fun hapart => ?_)
    · exact (mem_entered ..).mpr (Or.inl hkey)
    · rw [setCall_self] at hmem
      obtain ⟨one, hone, rfl⟩ := List.mem_map.mp hmem
      refine ⟨htakes, ?_, ?_, ?_⟩
      · rw [prepareUpdate_sequenceId]
      · rw [prepareUpdate_sequenceId]
        exact ((noteAll_changed _ _).2 one).mp hone
      · rw [prepareUpdate_sequenceId]
        refine (mem_entered ..).mpr (Or.inr ⟨one, hone, ?_⟩)
        exact (scopedSequenceKey_effective _ _).symm
    · rw [setCall_self] at hmem
      exact (List.mem_filter.mp hmem).2
    · rw [setCall_self]
      subst howner
      exact ⟨_, find_put_self .., le_refl _⟩
    · obtain ⟨content, hdone, hlast, hkept⟩ := h.held hapart
      have hretained : ∀ service : WindowService, service.sequenceWindows =
          (ConcurrentUpdates.entered (projectOf s t) (s.cold.executor.task t).data none
            s.hot.service).1.sequenceWindows →
          retained p id service = retained p id s.hot.service := by
        intro service hwindows
        rw [retained, hwindows]
        exact createSequences_contentOf ..
      refine ⟨content, hdone.congr (fun _ _ => rfl) fun a _ hsome => ?_, fun q hq => ?_,
        fun time q hlive hq => ?_⟩
      · by_cases hat : a = t
        · -- the update has its group still to write
          subst hat
          refine iff_of_false (fun hwrote => ?_) hopen
          obtain ⟨-, -, -, hpoint⟩ := hotWork_some hsome
          rcases hwrote with hpast | ⟨-, -, hnone⟩
          · rw [show _ = Stage.calling from hcalling] at hpast
            exact absurd hpast (by decide)
          · refine hnone (prepareUpdate id (incomingFor id (s.cold.executor.task a).data.points))
              ?_ (prepareUpdate_sequenceId ..)
            show _ ∈ (UpdateState.calls (UpdateState.setCall _ _ _) a).pending
            rw [setCall_self]
            exact List.mem_map_of_mem ((noteAll_changed _ _).2 id |>.mpr hpoint)
        · exact hotWrote_other hat hentered hcalls
      · exact hlast q ((hretained _ rfl) ▸ hq)
      · exact (hretained _ rfl) ▸ hkept time q (live_before hwatermark hlive) hq
  · have hafter : after (projectOf s t) s.hot (.enter t (s.cold.executor.task t).data none) =
        s.hot := after_enter_rejected (fun haccepted => htakes (taken_iff.mpr haccepted)) s.hot t
    have hidle : (s.hot.calls t).Idle := (h.running t).resolve_right fun hrunning => by
      rw [hfresh] at hrunning
      cases hrunning.2
    rw [hafter] at hcalls ⊢
    refine h.hotStep hcalling (Function.update_self ..) hentered hcalls h.valid h.sizes
      (fun _ hkey => hkey) (fun prepared hmem => ?_) (fun key hmem => ?_)
      (fun watermark hfind => ⟨watermark, hfind, le_refl _⟩) (fun hsome _ => absurd hidle hsome)
      (fun hapart => ?_)
    · rw [hidle.1] at hmem
      cases hmem
    · rw [hidle.2] at hmem
      cases hmem
    · obtain ⟨content, hdone, hlast, hkept⟩ := h.held hapart
      refine ⟨content, hdone.congr (fun _ _ => rfl) fun a _ hsome => ?_, hlast, hkept⟩
      by_cases hat : a = t
      · subst hat
        exact absurd (hotWork_some hsome).2.1 htakes
      · exact hotWrote_other hat hentered hcalls

/-- Whose task the sequence window belongs to. -/
theorem own_task (hapart : TasksApart p s.cold.executor) {t : Nat}
    (ht : t < s.cold.executor.tasks.length)
    (hkey : ownKey (projectOf s t) (scopedSequenceKey p id) = true) : projectOf s t = p := by
  refine (hapart t ht).resolve_right fun hseparate => ?_
  have hnot := ownKey_other hseparate hkey
  rw [ownKey_self] at hnot
  cases hnot

/-- The earlier tasks with points of the sequence are behind a callback that runs. -/
theorem earlier_wrote (h : Sound p id config baseName reaches sizes s) {t : Nat}
    (hcalling : s.cold.executor.stage t .hot = .calling) (howner : projectOf s t = p)
    (hpoint : ∃ point ∈ (s.cold.executor.task t).data.points, point.sequenceId = id) {a : Nat}
    (hlt : a < t) (hsome : hotWork s.cold.executor p id a ≠ []) : HotWrote id s a := by
  obtain ⟨howned, hsettled⟩ := settled_of_sound h
  obtain ⟨hproject, -, -, first, hfirst, hid⟩ := hotWork_some hsome
  obtain ⟨second, hsecond, hid'⟩ := hpoint
  have hoverlap : Overlap (s.cold.executor.task a) (s.cold.executor.task t) :=
    ⟨hproject.trans howner.symm, first, hfirst, second, hsecond, hid.trans hid'.symm⟩
  obtain ⟨key, hkey, hkey'⟩ := hoverlap.key
  have hbegun : 2 ≤ progress (s.cold.executor.stage t .hot) := by
    rw [hcalling]
    decide
  have hover := hsettled.chained.behind (lt_of_calling howned hcalling) (Or.inr hbegun) hlt hkey
    hkey'
  exact Or.inl (by omega)

/-- A group is assigned to the window: the last points are those of the longer content. -/
theorem lastAt_assigned {base content xs : List RawTimeseriesPoint}
    (hbase : Ascending RawTimeseriesPoint.time base)
    (hlast : ∀ q ∈ base, lastAt RawTimeseriesPoint.time q.time content = some q)
    {q : RawTimeseriesPoint} (hq : q ∈ assignAll RawTimeseriesPoint.time xs base) :
    lastAt RawTimeseriesPoint.time q.time (content ++ xs) = some q := by
  rw [lastAt_append]
  rcases (mem_assignAll RawTimeseriesPoint.time hbase xs q).mp hq with hnew | ⟨hnone, hold⟩
  · rw [hnew]
    rfl
  · rw [hnone, hlast q hold]
    rfl

/-- Assigning keeps the last value at a time. -/
theorem assigned_lastAt {base content xs : List RawTimeseriesPoint}
    (hbase : Ascending RawTimeseriesPoint.time base) {time : Timestamp} {q : RawTimeseriesPoint}
    (hkept : lastAt RawTimeseriesPoint.time time content = some q → q ∈ base)
    (hq : lastAt RawTimeseriesPoint.time time (content ++ xs) = some q) :
    q ∈ assignAll RawTimeseriesPoint.time xs base := by
  have htime : q.time = time := (lastAt_some _ hq).2
  rw [lastAt_append] at hq
  refine (mem_assignAll RawTimeseriesPoint.time hbase xs q).mpr ?_
  rw [htime]
  cases hnew : lastAt RawTimeseriesPoint.time time xs with
  | some newer =>
      rw [hnew] at hq
      exact Or.inl hq
  | none =>
      rw [hnew] at hq
      exact Or.inr ⟨rfl, hkept hq⟩

section Update

variable {t : Nat} {prepared : PreparedSequenceUpdate}

/-- The window after the update of a sequence. -/
theorem retained_updated (h : Sound p id config baseName reaches sizes s)
    (hmem : prepared ∈ (s.hot.calls t).pending) :
    retained p id (after (projectOf s t) s.hot (.update t prepared)).service =
      if scopedSequenceKey p id = scopedSequenceKey (projectOf s t) prepared.sequenceId then
        assignAll RawTimeseriesPoint.time
          (incomingFor prepared.sequenceId (s.cold.executor.task t).data.points)
          (retained p id s.hot.service)
      else retained p id s.hot.service := by
  obtain ⟨-, hbatch, -, hstored⟩ := h.pending t prepared hmem
  have hsorted : Ascending RawTimeseriesPoint.time prepared.incoming := by
    rw [hbatch]
    exact prepareUpdate_ascending ..
  rw [← scopedSequenceKey_effective (projectOf s t)] at hstored ⊢
  show contentOf _ (sequenceStep _ prepared s.hot.service.sequenceWindows) = _
  rw [sequenceStep_contentOf h.valid _ hsorted hstored]
  refine if_congr Iff.rfl ?_ rfl
  rw [hbatch, prepareUpdate_assignAll _ _ (h.valid.ascending _), prepareUpdate_sequenceId]
  rfl

/-- The update of another sequence. -/
theorem Held.updateOther (h : Held p id s) (hcalling : s.cold.executor.stage t .hot = .calling)
    (hother : projectOf s t = p → prepared.sequenceId ≠ id)
    (hsame : retained p id (after (projectOf s t) s.hot (.update t prepared)).service =
      retained p id s.hot.service) :
    Held p id { s with hot := after (projectOf s t) s.hot (.update t prepared) } := by
  obtain ⟨content, hdone, hlast, hkept⟩ := h
  refine ⟨content, hdone.congr (fun _ _ => rfl) fun a _ hsome => ?_, fun q hq => ?_,
    fun time q hlive hq => ?_⟩
  · by_cases hat : a = t
    · subst hat
      have hne := hother (hotWork_some hsome).1
      show (3 ≤ progress _ ∨ _ ∧ _ ∧
        ∀ one ∈ (UpdateState.calls (UpdateState.setCall _ _ _) a).pending, _) ↔ _
      rw [setCall_self, HotWrote, hcalling]
      refine or_congr_right (and_congr_right fun _ => and_congr_right fun _ => ?_)
      simp only [List.mem_filter, decide_eq_true_eq, and_imp]
      refine forall₂_congr fun one _ => ⟨fun hone hid => ?_, fun hone _ => hone⟩
      exact hone (fun heq => hne (heq.symm.trans hid)) hid
    · exact @hotWrote_other id s t a hat _ s.entered (fun _ _ => rfl) fun _ ha => calls_after ha
  · exact hlast q (hsame ▸ hq)
  · exact hsame ▸ hkept time q hlive hq

/-- The update of the sequence: the task has written its group, after all earlier ones. -/
theorem Held.updateSelf (h : Sound p id config baseName reaches sizes s)
    (hheld : Held p id s) (hcalling : s.cold.executor.stage t .hot = .calling)
    (hmem : prepared ∈ (s.hot.calls t).pending) (howner : projectOf s t = p)
    (hself : prepared.sequenceId = id) :
    Held p id { s with hot := after (projectOf s t) s.hot (.update t prepared) } := by
  obtain ⟨howned, -⟩ := settled_of_sound h
  obtain ⟨htaken, -, hpoints, -⟩ := h.pending t prepared hmem
  obtain ⟨content, hdone, hlast, hkept⟩ := hheld
  have hretained : retained p id (after (projectOf s t) s.hot (.update t prepared)).service =
      assignAll RawTimeseriesPoint.time (incomingFor id (s.cold.executor.task t).data.points)
        (retained p id s.hot.service) := by
    rw [retained_updated h hmem, if_pos (by rw [howner, hself]), hself]
  have hwork : hotWork s.cold.executor p id t =
      incomingFor id (s.cold.executor.task t).data.points := if_pos ⟨howner, htaken⟩
  have hbase : Ascending RawTimeseriesPoint.time (retained p id s.hot.service) :=
    h.valid.ascending _
  have hentered : s.entered t = true := by
    refine ((h.running t).resolve_left fun hidle => ?_).2
    rw [hidle.1] at hmem
    cases hmem
  rw [hself] at hpoints
  refine ⟨content ++ hotWork s.cold.executor p id t,
    hdone.finish (lt_of_calling howned hcalling) (fun hwrote => ?_)
      (fun a hlt hsome => earlier_wrote h hcalling howner hpoints hlt hsome) fun a _ hsome => ?_,
    fun q hq => ?_, fun time q hlive hq => ?_⟩
  · rcases hwrote with hpast | ⟨-, -, hnone⟩
    · rw [hcalling] at hpast
      exact absurd hpast (by decide)
    · exact hnone prepared hmem hself
  · by_cases hat : a = t
    · subst hat
      refine iff_of_true (Or.inr ⟨hcalling, hentered, fun one hone => ?_⟩) (Or.inr rfl)
      change one ∈ (UpdateState.calls (UpdateState.setCall _ _ _) a).pending at hone
      rw [setCall_self] at hone
      exact fun hid => of_decide_eq_true (List.mem_filter.mp hone).2 (hid.trans hself.symm)
    · rw [or_iff_left hat]
      exact @hotWrote_other id s t a hat _ s.entered (fun _ _ => rfl) fun _ ha => calls_after ha
  · rw [hwork]
    exact lastAt_assigned hbase hlast (hretained ▸ hq)
  · rw [hwork] at hq
    exact hretained ▸ assigned_lastAt hbase (fun hold => hkept time q hlive hold) hq

/-- **A hot update writes a sequence.** -/
theorem Sound.update (h : Sound p id config baseName reaches sizes s)
    (hcalling : s.cold.executor.stage t .hot = .calling)
    (hmem : prepared ∈ (s.hot.calls t).pending) :
    Sound p id config baseName reaches sizes
      { s with hot := after (projectOf s t) s.hot (.update t prepared) } := by
  obtain ⟨howned, -⟩ := settled_of_sound h
  obtain ⟨htaken, hbatch, hpoints, hstored⟩ := h.pending t prepared hmem
  have hsorted : Ascending RawTimeseriesPoint.time prepared.incoming := by
    rw [hbatch]
    exact prepareUpdate_ascending ..
  have hbusy : ¬ (s.hot.calls t).Idle := fun hidle => by
    rw [hidle.1] at hmem
    cases hmem
  have hkeys : ∀ key ∈ s.hot.service.sequenceWindows.keys,
      key ∈ (after (projectOf s t) s.hot (.update t prepared)).service.sequenceWindows.keys :=
    fun _ hkey => hkey
  refine h.hotStep hcalling ((h.running t).resolve_left hbusy).2 (fun _ _ => rfl)
    (fun a ha => calls_after ha) (sequenceStep_valid h.valid _ hsorted) h.sizes hkeys
    (fun one hone => ?_) (fun key hkey => ?_)
    (fun watermark hfind => ⟨watermark, hfind, le_refl _⟩) (fun _ howner => ?_) (fun hapart => ?_)
  · rw [after, setCall_self] at hone
    obtain ⟨htaken', hbatch', hpoints', hstored'⟩ := h.pending t one (List.mem_filter.mp hone).1
    exact ⟨htaken', hbatch', hpoints', hkeys _ hstored'⟩
  · rw [after, setCall_self] at hkey
    exact h.keys t key hkey
  · rw [after, setCall_self]
    exact h.starts t hbusy howner
  · by_cases hself : projectOf s t = p ∧ prepared.sequenceId = id
    · exact (h.held hapart).updateSelf h hcalling hmem hself.1 hself.2
    · refine (h.held hapart).updateOther hcalling (fun howner hid => hself ⟨howner, hid⟩) ?_
      rw [retained_updated h hmem]
      refine if_neg fun hkey => ?_
      have hown : ownKey (projectOf s t) (scopedSequenceKey p id) = true := hkey ▸ ownKey_self _ _
      have howner := own_task hapart (lt_of_calling howned hcalling) hown
      rw [howner] at hkey
      exact hself ⟨howner, (scopedSequenceKey_inj.mp hkey).symm⟩

/-- **A hot update prunes a sequence.** -/
theorem Sound.prune (h : Sound p id config baseName reaches sizes s) {key : String}
    (hcalling : s.cold.executor.stage t .hot = .calling)
    (hmem : key ∈ (s.hot.calls t).unpruned) :
    Sound p id config baseName reaches sizes
      { s with hot := after (projectOf s t) s.hot (.prune t key) } := by
  obtain ⟨howned, -⟩ := settled_of_sound h
  have hbusy : ¬ (s.hot.calls t).Idle := fun hidle => by
    rw [hidle.2] at hmem
    cases hmem
  have hkeys : ∀ other ∈ s.hot.service.sequenceWindows.keys,
      other ∈ (after (projectOf s t) s.hot (.prune t key)).service.sequenceWindows.keys :=
    fun _ hother => hother
  have hentered := ((h.running t).resolve_left hbusy).2
  refine h.hotStep hcalling hentered (fun _ _ => rfl)
    (fun a ha => calls_after ha) (pruneStep_allValid h.valid _ _) h.sizes hkeys
    (fun one hone => ?_) (fun other hother => ?_)
    (fun watermark hfind => ⟨watermark, hfind, le_refl _⟩) (fun _ howner => ?_) (fun hapart => ?_)
  · rw [after, setCall_self] at hone
    obtain ⟨htaken', hbatch', hpoints', hstored'⟩ := h.pending t one hone
    exact ⟨htaken', hbatch', hpoints', hkeys _ hstored'⟩
  · rw [after, setCall_self] at hother
    exact h.keys t other (List.mem_filter.mp hother).1
  · rw [after, setCall_self]
    exact h.starts t hbusy howner
  · obtain ⟨content, hdone, hlast, hkept⟩ := h.held hapart
    have hretained : retained p id (after (projectOf s t) s.hot (.prune t key)).service =
        if scopedSequenceKey p id = key then
          (retained p id s.hot.service).filter fun q =>
            decide ((s.hot.calls t).windowStart ≤ q.time)
        else retained p id s.hot.service := pruneStep_contentOf h.valid _ _ _
    refine ⟨content, hdone.congr (fun _ _ => rfl) fun a _ _ => ?_, fun q hq => ?_,
      fun time q hlive hq => ?_⟩
    · by_cases hat : a = t
      · subst hat
        show (_ ∨ _ ∧ _ ∧ ∀ one ∈ (UpdateState.calls (UpdateState.setCall _ _ _) a).pending, _) ↔ _
        rw [setCall_self]
        rfl
      · exact @hotWrote_other id s t a hat _ s.entered (fun _ _ => rfl) fun _ ha => calls_after ha
    · rw [hretained] at hq
      split at hq
      · exact hlast q (List.mem_filter.mp hq).1
      · exact hlast q hq
    · have hold := hkept time q hlive hq
      rw [hretained]
      split
      · -- the call prunes the sequence up to a window start that is not behind this one
        rename_i hkey
        have hown : ownKey (projectOf s t) (scopedSequenceKey p id) = true :=
          hkey ▸ h.keys t key hmem
        have howner := own_task hapart (lt_of_calling howned hcalling) hown
        obtain ⟨watermark, hfind, hle⟩ := h.starts t hbusy howner
        refine List.mem_filter.mpr ⟨hold, decide_eq_true (hle.trans ?_)⟩
        rw [(lastAt_some _ hq).2]
        exact hlive watermark hfind
      · exact hold

end Update

/-- Every step keeps the system sound. -/
theorem Sound.step (h : Sound p id config baseName reaches sizes s) (action : Action) :
    Sound p id config baseName reaches sizes (step config baseName reaches s action) := by
  cases action with
  | cold action =>
      rw [StoreAgreement.step]
      split
      · exact h
      · exact h.cold (Bool.not_eq_true _ ▸ ‹_›)
  | enter t =>
      rw [StoreAgreement.step]
      split
      · rename_i henters
        obtain ⟨hcalling, hfresh⟩ := (Bool.and_eq_true _ _).mp henters
        exact h.enter (calling_iff.mp hcalling) (Bool.not_eq_true' _ ▸ hfresh)
      · exact h
  | update t sequenceId =>
      rw [StoreAgreement.step]
      split
      · rename_i hcalling
        cases hfind : (s.hot.calls t).pending.find? fun prepared =>
            decide (prepared.sequenceId = sequenceId) with
        | none => exact h
        | some prepared =>
            exact h.update (calling_iff.mp hcalling) (List.mem_of_find?_eq_some hfind)
      · exact h
  | prune t key =>
      rw [StoreAgreement.step]
      split
      · rename_i hprunes
        obtain ⟨hrest, hmem⟩ := (Bool.and_eq_true _ _).mp hprunes
        obtain ⟨hcalling, -⟩ := (Bool.and_eq_true _ _).mp hrest
        exact h.prune (calling_iff.mp hcalling) (of_decide_eq_true hmem)
      · exact h

theorem sound_start : Sound p id config baseName reaches sizes (start sizes) where
  executed := ⟨[], rfl⟩
  valid := allValid_empty
  sizes := rfl
  entered _ hentered := absurd hentered Bool.false_ne_true
  running _ := Or.inl ⟨rfl, rfl⟩
  pending _ _ hmem := absurd hmem List.not_mem_nil
  keys _ _ hmem := absurd hmem List.not_mem_nil
  starts _ hsome := absurd ⟨rfl, rfl⟩ hsome
  held _ := ⟨[], doneInOrder_nil _ _, fun _ hq => absurd hq List.not_mem_nil,
    fun _ _ _ hq => nomatch hq⟩

theorem sound_reached (actions : List Action) :
    Sound p id config baseName reaches sizes
      (reached config baseName reaches sizes actions) :=
  @run_invariant _ _ (StoreAgreement.step config baseName reaches)
    (Sound p id config baseName reaches sizes) (fun _ => True) (fun _ action _ h => h.step action)
    _ sound_start actions fun _ _ => trivial

/-! ## The stores when the callbacks have returned -/

/-- The hot callbacks of all admitted tasks have returned. -/
def HotReturned (s : Executor) : Prop := ∀ t < s.tasks.length, .returned t .hot ∈ s.log

/-- Neither side refuses what a task has for the sequence. -/
def TakenByBoth (reaches : Nat → Nat → Bool) (p : ProjectId) (id : SequenceId) (s : Executor) :
    Prop :=
  ∀ t < s.tasks.length, (s.task t).data.projectId = p →
    (∃ point ∈ (s.task t).data.points, point.sequenceId = id) →
      taken s t = true ∧ ∃ index, id ∈ groupsOf reaches s t index

/-- Both sides write the same. -/
theorem work_eq_hotWork {e : Executor} (hrouted : Routed config e)
    (hboth : TakenByBoth reaches p id e) {t : Nat} (ht : t < e.tasks.length) :
    work config reaches e p id t = hotWork e p id t := by
  obtain ⟨writer, hfollows⟩ := hrouted.follows ht
  by_cases hhas : (e.task t).data.projectId = p ∧ ∃ point ∈ (e.task t).data.points,
      point.sequenceId = id
  · obtain ⟨hproject, hpoints⟩ := hhas
    obtain ⟨htaken, index, hgroup⟩ := hboth t ht hproject hpoints
    obtain ⟨-, point, hpoint, hid⟩ := mem_groupsOf.mp hgroup
    have hwriter : writer id = index := hid ▸ (hfollows.mem.mp hpoint).2
    rw [← hproject, work_of_group hrouted ht hgroup, hotWork, if_pos ⟨rfl, htaken⟩, incomingFor,
      incomingFor, hfollows.batches, List.filter_filter]
    refine List.filter_congr fun other _ => ?_
    rw [Bool.and_eq_left_iff_imp, decide_eq_true_iff, decide_eq_true_iff]
    exact fun hsame => by rw [hsame, hwriter]
  · have hcold : work config reaches e p id t = [] := by
      by_contra hsome
      obtain ⟨hproject, index, hgroup⟩ := group_of_work hsome
      obtain ⟨-, point, hpoint, hid⟩ := mem_groupsOf.mp hgroup
      exact hhas ⟨hproject, point, (hfollows.mem.mp hpoint).1, hid⟩
    have hhot : hotWork e p id t = [] := by
      by_contra hsome
      obtain ⟨hproject, -, -, hpoints⟩ := hotWork_some hsome
      exact hhas ⟨hproject, hpoints⟩
    rw [hcold, hhot]

/-- The row at a time is the last point written for it. -/
theorem childTable_row (content : List RawTimeseriesPoint) (time : Timestamp) :
    ((childTable baseName p id content).bind fun child => child.rows.find time) =
      (lastAt RawTimeseriesPoint.time time content).map fun point => boundColumns point.value := by
  cases content with
  | nil => rfl
  | cons first rest =>
      show (storeRows (first :: rest) KeyedTable.empty).find time = _
      rw [find_storeRows]
      exact Option.or_none

/-- **THE STORES AGREE.**  Whatever the order in which hot workers, cold workers and the
    database have taken their steps: once the callbacks of the admitted tasks have returned,
    and neither side refuses a batch of the sequence, each point the hot window retains of it
    is the database's row at that time, and each row in the reach of the window is retained. -/
theorem stores_agree (config : Config) (baseName : String) (reaches : Nat → Nat → Bool)
    (sizes : Table ProjectId Int) (actions : List Action) (p : ProjectId) (id : SequenceId)
    (hnames : NamesApart
      ((p, id) :: taskPairs (reached config baseName reaches sizes actions).cold.executor))
    (hapart : TasksApart p (reached config baseName reaches sizes actions).cold.executor)
    (hcold : ColdReturned config (reached config baseName reaches sizes actions).cold.executor)
    (hhot : HotReturned (reached config baseName reaches sizes actions).cold.executor)
    (hboth : TakenByBoth reaches p id
      (reached config baseName reaches sizes actions).cold.executor) :
    let s := reached config baseName reaches sizes actions
    (∀ q ∈ retained p id s.hot.service,
        rowAt s.cold.database p id q.time = some (boundColumns q.value)) ∧
      ∀ time columns, Live p s.hot.service time →
        rowAt s.cold.database p id time = some columns →
          ∃ q ∈ retained p id s.hot.service, q.time = time ∧ boundColumns q.value = columns := by
  intro s
  have hsound : Sound p id config baseName reaches sizes s := sound_reached actions
  obtain ⟨-, hsettled⟩ := settled_of_sound hsound
  obtain ⟨coldActions, hexecuted⟩ := hsound.executed
  have hserial : Serial config baseName reaches ((p, id) :: taskPairs s.cold.executor) s.cold := by
    rw [hexecuted] at hnames ⊢
    exact serial_reached hnames coldActions
  obtain ⟨-, -, hrouted⟩ := owned_of_executed hserial.executed
  obtain ⟨content, hdone, hlast, hkept⟩ := hsound.held hapart
  have hcontent : content = (List.range s.cold.executor.tasks.length).flatMap
      (hotWork s.cold.executor p id) := by
    refine hdone.all fun t ht _ => Or.inl ?_
    exact (hsettled.counted.mem_log (e := .returned t .hot) rfl).mp (hhot t ht)
  have hrow : ∀ time, rowAt s.cold.database p id time =
      (lastAt RawTimeseriesPoint.time time content).map fun point => boundColumns point.value := by
    intro time
    have hself : (p, id) ∈ (p, id) :: taskPairs s.cold.executor := List.mem_cons_self
    have hfind := hserial.find_returned (fun _ hpair => List.mem_cons_of_mem _ hpair) hcold hself
    rw [rowAt, hfind, childTable_row, hcontent]
    refine congrArg (fun points => Option.map _ (lastAt RawTimeseriesPoint.time time points)) ?_
    exact List.flatMap_congr fun t ht => work_eq_hotWork hrouted hboth (List.mem_range.mp ht)
  refine ⟨fun q hq => ?_, fun time columns hlive hcolumns => ?_⟩
  · rw [hrow, hlast q hq]
    rfl
  · rw [hrow] at hcolumns
    obtain ⟨q, hq, hvalue⟩ := Option.map_eq_some_iff.mp hcolumns
    exact ⟨q, hkept time q hlive hq, (lastAt_some _ hq).2, hvalue⟩

/-- Two tasks with a point of one sequence at one time.  The database takes the first while its
    hot update is under way, and the second in front of the end of that update. -/
def oneTime : List Action :=
  let request (value : Int) : Request :=
    { resolved := some
        { projectId := "p", points := [{ time := 1, sequenceId := "s", value := .int64 value }] } }
  let cold : Action := .cold (.executor (.work (.cold 0) (.cold {})))
  let hot : Action := .cold (.executor (.work (.hot 0) (.hot {})))
  [.cold (.executor (.submit 0 (request 7))), .cold (.executor (.route 0)),
    .cold (.executor (.admission 0)), .cold (.executor (.submit 1 (request 8))),
    .cold (.executor (.route 1)), .cold (.executor (.admission 1)),
    .cold (.executor (.pop (.cold 0))), cold, .cold (.executor (.pop (.hot 0))), hot, .enter 0,
    .cold (.write 0 "s"), cold, cold, cold, .cold (.executor (.pop (.cold 0))), cold,
    .update 0 "s", .cold (.write 0 "s"), cold, .prune 0 (scopedSequenceKey "p" "s"), hot, hot, hot,
    hot, hot, hot, hot, .cold (.executor (.pop (.hot 0))), hot, hot, .enter 1, .update 1 "s",
    .prune 1 (scopedSequenceKey "p" "s"), hot]

/-- Where the two tasks end. -/
def oneTimeEnd : Pipeline :=
  reached twoShards "b" (fun _ _ => true) KeyedTable.empty oneTime

theorem oneTime_reached :
    reached twoShards "b" (fun _ _ => true) KeyedTable.empty oneTime = oneTimeEnd := rfl

theorem oneTimeEnd_returned : ∀ t < oneTimeEnd.cold.executor.tasks.length,
    ∀ lane ∈ lanes twoShards (oneTimeEnd.cold.executor.task t),
      Event.returned t lane ∈ oneTimeEnd.cold.executor.log := by
  decide +kernel

theorem oneTimeEnd_tasks {t : Nat} (ht : t < oneTimeEnd.cold.executor.tasks.length) :
    t = 0 ∨ t = 1 := by
  have htwo : oneTimeEnd.cold.executor.tasks.length = 2 := by decide +kernel
  omega

theorem oneTimeEnd_apart : TasksApart "p" oneTimeEnd.cold.executor := by
  intro t ht
  rcases oneTimeEnd_tasks ht with rfl | rfl
  · exact Or.inl (by decide +kernel)
  · exact Or.inl (by decide +kernel)

/-- Two tasks write one sequence at one time. -/
theorem stores_agree_two_tasks :
    rowAt oneTimeEnd.cold.database "p" "s" 1 = some (boundColumns (.int64 8)) ∧
      (∀ q ∈ retained "p" "s" oneTimeEnd.hot.service,
        rowAt oneTimeEnd.cold.database "p" "s" q.time = some (boundColumns q.value)) ∧
      ∀ time columns, Live "p" oneTimeEnd.hot.service time →
        rowAt oneTimeEnd.cold.database "p" "s" time = some columns →
          ∃ q ∈ retained "p" "s" oneTimeEnd.hot.service,
            q.time = time ∧ boundColumns q.value = columns := by
  have hagree := stores_agree twoShards "b" (fun _ _ => true) KeyedTable.empty oneTime "p" "s"
  rw [oneTime_reached] at hagree
  refine ⟨by decide +kernel, hagree (namesApart_of_one (by decide +kernel)) oneTimeEnd_apart
    (fun t ht index hlane => oneTimeEnd_returned t ht _ hlane)
    (fun t ht => oneTimeEnd_returned t ht _ List.mem_cons_self) fun t ht _ _ => ?_⟩
  rcases oneTimeEnd_tasks ht with rfl | rfl
  · exact ⟨by decide +kernel, 0, by decide +kernel⟩
  · exact ⟨by decide +kernel, 0, by decide +kernel⟩

/-! ## Reading the window while updates are under way -/

/-- **HOT READS ARE FRESH.**  At every moment, a point the window retains is the last one
    its task has for the time, and no task whose hot callback has returned and has a point at
    that time is later; and a point of such a task that is in the window is not missing. -/
theorem hot_reads_fresh (config : Config) (baseName : String) (reaches : Nat → Nat → Bool)
    (sizes : Table ProjectId Int) (actions : List Action) (p : ProjectId) (id : SequenceId)
    (hapart : TasksApart p (reached config baseName reaches sizes actions).cold.executor) :
    let s := reached config baseName reaches sizes actions
    let e := s.cold.executor
    (∀ q ∈ retained p id s.hot.service, ∃ u < e.tasks.length,
        lastAt RawTimeseriesPoint.time q.time (hotWork e p id u) = some q ∧
        ∀ t < e.tasks.length, .returned t .hot ∈ e.log →
          (∃ point ∈ hotWork e p id t, point.time = q.time) → t ≤ u) ∧
      ∀ t < e.tasks.length, .returned t .hot ∈ e.log → ∀ point ∈ hotWork e p id t,
        Live p s.hot.service point.time →
          ∃ q ∈ retained p id s.hot.service, q.time = point.time := by
  intro s e
  have hsound : Sound p id config baseName reaches sizes s := sound_reached actions
  obtain ⟨-, hsettled⟩ := settled_of_sound hsound
  obtain ⟨content, ⟨n, hn, rfl, -, hbehind⟩, hlast, hkept⟩ := hsound.held hapart
  -- what has returned is among the tasks that are written
  have hwritten : ∀ t < e.tasks.length, .returned t .hot ∈ e.log → hotWork e p id t ≠ [] →
      t < n := by
    intro t ht hreturned hsome
    by_contra hge
    exact hbehind t (not_lt.mp hge) ht hsome
      (Or.inl ((hsettled.counted.mem_log (e := .returned t .hot) rfl).mp hreturned))
  refine ⟨fun q hq => ?_, fun t ht hreturned point hpoint hlive => ?_⟩
  · obtain ⟨u, hu, hown, hnone⟩ := lastAt_range (hlast q hq)
    refine ⟨u, hu.trans_le hn, hown, fun t ht hreturned hpoint => ?_⟩
    obtain ⟨point, hpoint, htime⟩ := hpoint
    by_contra hlater
    exact (lastAt_eq_none _).mp (hnone t (not_le.mp hlater)
      (hwritten t ht hreturned (List.ne_nil_of_mem hpoint))) point hpoint htime
  · have hmem : point ∈ (List.range n).flatMap (hotWork e p id) :=
      List.mem_flatMap.mpr ⟨t,
        List.mem_range.mpr (hwritten t ht hreturned (List.ne_nil_of_mem hpoint)), hpoint⟩
    cases hfind : lastAt RawTimeseriesPoint.time point.time
        ((List.range n).flatMap (hotWork e p id)) with
    | none => exact absurd rfl ((lastAt_eq_none _).mp hfind point hmem)
    | some q => exact ⟨q, hkept _ q hlive hfind, (lastAt_some _ hfind).2⟩

/-- What the hot window shows after both. -/
theorem hot_reads_fresh_two_tasks :
    (∀ q ∈ retained "p" "s" oneTimeEnd.hot.service,
        ∃ u < oneTimeEnd.cold.executor.tasks.length,
          lastAt RawTimeseriesPoint.time q.time
            (hotWork oneTimeEnd.cold.executor "p" "s" u) = some q ∧
          ∀ t < oneTimeEnd.cold.executor.tasks.length,
            .returned t .hot ∈ oneTimeEnd.cold.executor.log →
            (∃ point ∈ hotWork oneTimeEnd.cold.executor "p" "s" t, point.time = q.time) →
              t ≤ u) ∧
      ∀ t < oneTimeEnd.cold.executor.tasks.length,
        .returned t .hot ∈ oneTimeEnd.cold.executor.log →
        ∀ point ∈ hotWork oneTimeEnd.cold.executor "p" "s" t,
          Live "p" oneTimeEnd.hot.service point.time →
            ∃ q ∈ retained "p" "s" oneTimeEnd.hot.service, q.time = point.time := by
  have hfresh := hot_reads_fresh twoShards "b" (fun _ _ => true) KeyedTable.empty oneTime "p" "s"
  rw [oneTime_reached] at hfresh
  exact hfresh oneTimeEnd_apart

end StoreAgreement
