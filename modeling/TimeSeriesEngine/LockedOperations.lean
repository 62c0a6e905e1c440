import TimeSeriesEngine.WindowUpdate
import TimeSeriesEngine.Library.LockScripts

/-!
# The operations of the hot window and their locks

`WindowService` has one reader/writer mutex for its tables and one for each sequence;
updates and large prunes hand groups of sequences to a pool of workers and wait.  Here
every operation is the script of its locks, with what it reads and changes under them.

* `groupSequenceTasks_perm` — the groups hold every sequence once;
* `updateScript`, `replaceScript`, … , `WindowOperation.script` — the scripts;
* `script_alone` — an operation on its own leaves what `WindowService` computes.
-/

namespace LockedOperations

open TseTypes KeyedTable SeqWindow SeqContent HotWindow WindowContent WindowUpdate LockScripts
  Transition

/-- `mutex_`, and the mutex of each sequence. -/
inductive MutexId where
  | service
  | sequence (key : String)
deriving DecidableEq

/-- An operation as the locks it takes and what it does under them. -/
abbrev LockScript := Script MutexId WindowService

/-- What is done to one window, under its mutex. -/
abbrev SequenceTask := CriticalSection MutexId WindowService

/-! ## The pool -/

/-- `sequenceExecutorWorkerCount`; `parsed` is the number the variable holds, if it holds
    one. -/
def sequenceExecutorWorkerCount (parsed : Option Nat) : Nat :=
  match parsed with
  | some count => if 0 < count then min 64 count else 8
  | none => 8

/-- There is at least one worker. -/
theorem sequenceExecutorWorkerCount_pos (parsed : Option Nat) :
    0 < sequenceExecutorWorkerCount parsed := by
  cases parsed with
  | none => exact Nat.succ_pos 7
  | some count =>
      show 0 < if 0 < count then min 64 count else 8
      split <;> omega

/-- `kSequenceTaskBaseCost`. -/
def kSequenceTaskBaseCost : Nat := 1

/-- `kSequenceTaskPointCost`. -/
def kSequenceTaskPointCost : Nat := 1

/-- `kSequenceTaskCorrectionCost`. -/
def kSequenceTaskCorrectionCost : Nat := 4

/-- `kSequenceTaskOversubscription`. -/
def kSequenceTaskOversubscription : Nat := 2

/-- `kMinimumSequenceGroupCost`. -/
def kMinimumSequenceGroupCost : Nat := 8

/-- `kParallelPruneThreshold`. -/
def kParallelPruneThreshold : Nat := 16

section Grouping

variable {α : Type}

/-- One turn of the inner loop: the group at an index takes the place of the best so far
    when the item fits in it and it is cheaper. -/
def betterGroup (itemCost target : Nat) (costs : List Nat) (best : Option Nat) (index : Nat) :
    Option Nat :=
  if target < costs.getD index 0 + itemCost then best
  else
    match best with
    | none => some index
    | some other => if costs.getD index 0 < costs.getD other 0 then some index else some other

/-- The group an item goes to. -/
def bestGroup (itemCost target : Nat) (costs : List Nat) : Option Nat :=
  (List.range costs.length).foldl (betterGroup itemCost target costs) none

/-- One turn of the grouping loop; a group is its cost and its items. -/
def placeItem (cost : α → Nat) (target : Nat) (groups : List (Nat × List α)) (item : α) :
    List (Nat × List α) :=
  match bestGroup (cost item) target (groups.map Prod.fst) with
  | none => groups ++ [(cost item, [item])]
  | some index =>
      groups.modify index fun group => (group.1 + cost item, group.2 ++ [item])

/-- `groupSequenceTasks`. -/
def groupSequenceTasks (items : List α) (workerCount : Nat) (cost : α → Nat) : List (List α) :=
  if items.isEmpty then []
  else if workerCount = 0 then [items]
  else
    let denominator := workerCount * kSequenceTaskOversubscription
    let calculated := ((items.map cost).sum + denominator - 1) / denominator
    let target := max kMinimumSequenceGroupCost (max 1 calculated)
    ((items.insertionSort fun left right => cost right ≤ cost left).foldl
      (placeItem cost target) []).map Prod.snd

end Grouping

/-! ## Nothing is lost between the groups -/

section Grouping

variable {α : Type}

/-- A better group is one of the groups. -/
theorem betterGroup_lt {itemCost target : Nat} {costs : List Nat} {best : Option Nat}
    {index : Nat} (hbest : ∀ i ∈ best, i < costs.length) (hindex : index < costs.length) :
    ∀ i ∈ betterGroup itemCost target costs best index, i < costs.length := by
  intro i hi
  simp only [betterGroup] at hi
  split at hi
  · exact hbest i hi
  · cases best with
    | none =>
        obtain rfl := Option.some.inj hi
        exact hindex
    | some other =>
        have hother : other < costs.length := hbest other rfl
        simp only at hi
        split at hi
        · obtain rfl := Option.some.inj hi
          exact hindex
        · obtain rfl := Option.some.inj hi
          exact hother

/-- A group that is chosen is there. -/
theorem bestGroup_lt {itemCost target : Nat} {costs : List Nat} {index : Nat}
    (h : bestGroup itemCost target costs = some index) : index < costs.length := by
  have hrun := @run_invariant _ _ (betterGroup itemCost target costs)
    (fun best => ∀ i ∈ best, i < costs.length) (fun i => i < costs.length)
    (fun _ _ hindex hbest => betterGroup_lt hbest hindex) none nofun (List.range costs.length)
    fun _ => List.mem_range.mp
  exact hrun index h

/-- The item is in one of the groups, beside those of before. -/
theorem placeItem_perm (cost : α → Nat) (target : Nat) (groups : List (Nat × List α)) (item : α) :
    ((placeItem cost target groups item).map Prod.snd).flatten.Perm
      (item :: (groups.map Prod.snd).flatten) := by
  rw [placeItem]
  split
  · rw [List.map_append, List.flatten_append]
    exact List.perm_append_comm
  · rename_i index hindex
    have hlt : index < groups.length := by
      have hlength := bestGroup_lt hindex
      rwa [List.length_map] at hlength
    clear hindex
    induction groups generalizing index with
    | nil => exact absurd hlt (Nat.not_lt_zero _)
    | cons group groups ih =>
        cases index with
        | zero =>
            show ((group.2 ++ [item]) ++ (groups.map Prod.snd).flatten).Perm
              (item :: (group.2 ++ (groups.map Prod.snd).flatten))
            rw [List.append_assoc]
            exact List.perm_middle
        | succ index =>
            show (group.2 ++ ((groups.modify index _).map Prod.snd).flatten).Perm
              (item :: (group.2 ++ (groups.map Prod.snd).flatten))
            exact ((ih index (Nat.lt_of_succ_lt_succ hlt)).append_left group.2).trans
              List.perm_middle

/-- **Every item is in one group**, and once. -/
theorem groupSequenceTasks_perm (items : List α) (workerCount : Nat) (cost : α → Nat) :
    (groupSequenceTasks items workerCount cost).flatten.Perm items := by
  have hfold : ∀ (target : Nat) (rest : List α) (groups : List (Nat × List α)),
      ((rest.foldl (placeItem cost target) groups).map Prod.snd).flatten.Perm
        (rest ++ (groups.map Prod.snd).flatten) := by
    intro target rest
    induction rest with
    | nil => exact fun groups => List.Perm.refl _
    | cons item rest ih =>
        intro groups
        refine (ih _).trans ?_
        refine ((placeItem_perm cost target groups item).append_left rest).trans ?_
        exact List.perm_middle
  rw [groupSequenceTasks]
  split
  · rename_i hempty
    rw [List.isEmpty_iff.mp hempty]
    exact List.Perm.refl _
  · split
    · rw [List.flatten_singleton]
    · refine (hfold _ _ []).trans ?_
      rw [List.map_nil, List.flatten_nil, List.append_nil]
      exact List.perm_insertionSort _ items

end Grouping

/-! ## The operations -/

/-- One sequence, under its own mutex. -/
def onSequence (mode : Mode) (key : String)
    (change : Table String SequenceWindow → Table String SequenceWindow) : SequenceTask :=
  { mutex := .sequence key
    mode := mode
    change := fun service => { service with sequenceWindows := change service.sequenceWindows } }

/-- `update_sequence`. -/
def updateSection (project : ProjectId) (prepared : PreparedSequenceUpdate) : SequenceTask :=
  onSequence .exclusive (scopedSequenceKey project prepared.sequenceId)
    (sequenceStep project prepared)

/-- `pruneOne`. -/
def pruneSection (start : Timestamp) (key : String) : SequenceTask :=
  onSequence .exclusive key (pruneStep start key)

/-- `estimated_cost`. -/
def estimatedCost (prepared : PreparedSequenceUpdate) : Nat :=
  kSequenceTaskBaseCost + prepared.incoming.length * kSequenceTaskPointCost +
    if prepared.strictlyIncreasing then 0
    else prepared.incoming.length * kSequenceTaskCorrectionCost

/-- `pruneExpiredPoints`: the calling thread prunes few sequences itself. -/
def pruneScript (workerCount : Nat) (start : Timestamp) (keys : List String) (rest : LockScript) :
    LockScript :=
  if keys.isEmpty then rest
  else if keys.length < kParallelPruneThreshold then
    runSections (keys.map (pruneSection start)) rest
  else
    runTasks ((groupSequenceTasks keys workerCount fun _ => 1).map
      (List.map (pruneSection start))) rest

/-- `windowSize`, whose value `rest` goes on with. -/
def windowSizeScript (projectId : ProjectId) (rest : Int → LockScript) : LockScript :=
  .lock .service .shared
    (.read fun service => .unlock .service (rest (windowSize projectId service)))

/-- `sequenceWindowFor`. -/
def sequenceWindowForScript (projectId : ProjectId) (sequenceId : SequenceId)
    (rest : LockScript) : LockScript :=
  .lock .service .exclusive
    (.write (fun service =>
        { service with
          sequenceWindows :=
            ensure (scopedSequenceKey projectId sequenceId) {} service.sequenceWindows })
      (.unlock .service rest))

section Operations

-- `walk` is the order in which the keys of an unordered map come
variable (workerCount capacity : Nat) (walk : List String → List String)

/-- `configureWindowSize`. -/
def configureScript (projectId : ProjectId) (size : Int) : LockScript :=
  let project := effectiveProject projectId
  if size ≤ 0 then .done
  else
    .lock .service .exclusive
      (.write (fun service =>
          { service with windowSizes := put project size service.windowSizes })
        (.read fun service => .unlock .service
          (match service.watermarks.find project with
          | none => .done
          | some watermark =>
              pruneScript workerCount (windowStart watermark size)
                (walk (projectKeys project service)) .done)))

/-- `replaceDerivedSequence`. -/
def replaceScript (projectId : ProjectId) (sequenceId : SequenceId) (data : TimeseriesBatch) :
    LockScript :=
  let project := effectiveProject projectId
  match validateReplace projectId sequenceId data with
  | some _ => .done
  | none =>
      sequenceWindowForScript projectId sequenceId
        (runSections
          [onSequence .exclusive (scopedSequenceKey projectId sequenceId)
            (adjust (scopedSequenceKey projectId sequenceId) fun w => replaceSequence w data)]
          (.lock .service .shared (.read fun service =>
            match service.watermarks.find project with
            | none => .unlock .service .done
            | some watermark =>
                -- `windowSize` locks `mutex_` again, under the lock taken above
                windowSizeScript projectId fun size =>
                  .read fun service => .unlock .service
                    (pruneScript workerCount (windowStart watermark size)
                      (walk (projectKeys project service)) .done))))

/-- `patchDerivedSequence`. -/
def patchScript (projectId : ProjectId) (sequenceId : SequenceId)
    (startTime endTime : Timestamp) (data : TimeseriesBatch) : LockScript :=
  match validatePatch projectId sequenceId startTime endTime data with
  | some _ => .done
  | none =>
      sequenceWindowForScript projectId sequenceId
        (runSections
          [onSequence .exclusive (scopedSequenceKey projectId sequenceId)
            (adjust (scopedSequenceKey projectId sequenceId) fun w =>
              patchSequence w startTime endTime data)] .done)

/-- `updateWindowIncremental`. -/
def updateScript (projectId : ProjectId) (data : TimeseriesBatch) (override : Option Int) :
    LockScript :=
  let project := effectiveProject projectId
  match readBatch projectId data override with
  | (_, some _) => .done
  | (result, none) =>
      let metadata := metadataStep project override data.points result.changedSequenceIds
      .lock .service .exclusive (.read fun service =>
        .write (fun service => (metadata service).1)
          (.unlock .service
            (runTasks
              ((groupSequenceTasks
                (preparedUpdates data.points (walk result.changedSequenceIds)) workerCount
                estimatedCost).map (List.map (updateSection project)))
              (pruneScript workerCount (metadata service).2.windowStart
                (walk (metadata service).2.sequences) .done))))

/-- The sequences a query comes to: an exception in the first turn ends the loop. -/
def sequencesRead (query : WindowQuery) (sequences : List (SequenceId × SequenceWindow)) :
    List (SequenceId × SequenceWindow) :=
  if query.precedingPoints ≠ 0 ∧ capacity < query.precedingPoints then sequences.take 1
  else sequences

/-- `queryWindowData`. -/
def queryDataScript (projectId : ProjectId) (query : WindowQuery) : LockScript :=
  let project := effectiveProject projectId
  if query.sequenceIds.isEmpty then .done
  else if query.startTime.any (fun start => query.endTime.any (fun finish => decide (finish < start)))
  then .done
  else
    .lock .service .shared (.read fun service => .unlock .service
      (match findSequences project "window query sequence_id must not be empty" service
          query.sequenceIds with
      | .error _ => .done
      | .ok sequences =>
          match service.watermarks.find project with
          | none => .done
          | some watermark =>
              if windowSize projectId service ≤ 0 then .done
              else if query.endTime.getD (liveEnd watermark) <
                  query.startTime.getD (liveStart watermark (windowSize projectId service))
              then .done
              else
                runSections
                  ((sequencesRead capacity query sequences).map fun entry =>
                    onSequence .shared (scopedSequenceKey project entry.1) id) .done))

/-- The loop of `queryWindowStatistics`, which stops at the first error. -/
def statisticsSections (project : ProjectId) : List SequenceId → LockScript
  | [] => .done
  | sequenceId :: rest =>
      let key := scopedSequenceKey project sequenceId
      let rebuild := fun w : SequenceWindow =>
        if w.statisticsValid then w else rebuildStatistics w
      .lock (.sequence key) .exclusive
        (.write (fun service =>
            { service with sequenceWindows := adjust key rebuild service.sequenceWindows })
          (.read fun service => .unlock (.sequence key)
            (match service.sequenceWindows.find key with
            | none => statisticsSections project rest
            | some w =>
                if w.statisticsNonNumericCount ≠ 0 then .done
                else if w.statisticsCount = 0 then statisticsSections project rest
                else
                  match w.statisticsMinimum, w.statisticsMaximum with
                  | _ :: _, _ :: _ => statisticsSections project rest
                  | _, _ => .done)))

/-- `queryWindowStatistics`. -/
def queryStatisticsScript (projectId : ProjectId) (sequenceIds : List SequenceId) : LockScript :=
  let project := effectiveProject projectId
  if sequenceIds.isEmpty then .done
  else
    .lock .service .shared (.read fun service => .unlock .service
      (match findSequences project "window statistics sequence_id must not be empty" service
          sequenceIds with
      | .error _ => .done
      | .ok sequences =>
          match service.watermarks.find project with
          | none => .done
          | some _ =>
              if windowSize projectId service ≤ 0 then .done
              else statisticsSections project (sequences.map Prod.fst)))

/-- The operations of the window service. -/
inductive WindowOperation where
  | windowSize (projectId : ProjectId)
  | configure (projectId : ProjectId) (size : Int)
  | replaceDerived (projectId : ProjectId) (sequenceId : SequenceId) (data : TimeseriesBatch)
  | patchDerived (projectId : ProjectId) (sequenceId : SequenceId)
      (startTime endTime : Timestamp) (data : TimeseriesBatch)
  | update (projectId : ProjectId) (data : TimeseriesBatch) (override : Option Int)
  | queryData (projectId : ProjectId) (query : WindowQuery)
  | queryStatistics (projectId : ProjectId) (sequenceIds : List SequenceId)

/-- The script of an operation. -/
def WindowOperation.script : WindowOperation → LockScript
  | .windowSize projectId => windowSizeScript projectId fun _ => .done
  | .configure projectId size => configureScript workerCount walk projectId size
  | .replaceDerived projectId sequenceId data =>
      replaceScript workerCount walk projectId sequenceId data
  | .patchDerived projectId sequenceId startTime endTime data =>
      patchScript projectId sequenceId startTime endTime data
  | .update projectId data override => updateScript workerCount walk projectId data override
  | .queryData projectId query => queryDataScript capacity projectId query
  | .queryStatistics projectId sequenceIds => queryStatisticsScript projectId sequenceIds

end Operations

/-! ## One operation on its own -/

section Alone

variable {workerCount capacity : Nat} {walk : List String → List String}

/-- What the sections of some items do, one after another. -/
theorem foldl_sections {α : Type} {section_ : α → SequenceTask}
    {change : α → Table String SequenceWindow → Table String SequenceWindow}
    (h : ∀ item service, (section_ item).change service =
      { service with sequenceWindows := change item service.sequenceWindows })
    (items : List α) (service : WindowService) :
    (items.map section_).foldl (fun acc one => one.change acc) service =
      { service with
        sequenceWindows :=
          items.foldl (fun acc item => change item acc) service.sequenceWindows } := by
  induction items generalizing service with
  | nil => rfl
  | cons item items ih =>
      rw [List.map_cons, List.foldl_cons, h, ih]
      rfl

/-- Pruning is one step for each key. -/
theorem pruneExpiredPoints_fst (start : Timestamp) (keys : List String)
    (windows : Table String SequenceWindow) :
    (pruneExpiredPoints start keys windows).1 =
      keys.foldl (fun acc key => pruneStep start key acc) windows := by
  induction keys generalizing windows with
  | nil => rfl
  | cons key keys ih => exact ih _

/-- Prunes of two keys commute. -/
theorem pruneStep_comm (start : Timestamp) (key key' : String)
    (windows : Table String SequenceWindow) :
    pruneStep start key' (pruneStep start key windows) =
      pruneStep start key (pruneStep start key' windows) := by
  by_cases hkey : key = key'
  · rw [hkey]
  · exact (adjust_comm hkey _ _ windows).symm

/-- The order of the keys does not matter, nor who prunes them. -/
theorem pruneScript_alone (start : Timestamp) {keys walked : List String}
    (hwalk : walked.Perm keys) (rest : LockScript) (service : WindowService) :
    (pruneScript workerCount start walked rest).alone service =
      rest.alone { service with
        sequenceWindows := (pruneExpiredPoints start keys service.sequenceWindows).1 } := by
  have hfold : ∀ {order : List String}, order.Perm keys →
      order.foldl (fun acc key => pruneStep start key acc) service.sequenceWindows =
        (pruneExpiredPoints start keys service.sequenceWindows).1 := by
    intro order horder
    rw [pruneExpiredPoints_fst]
    exact horder.foldl_eq' (fun x _ y _ windows => pruneStep_comm start x y windows) _
  have hsection : ∀ key service, (pruneSection start key).change service =
      { service with sequenceWindows := pruneStep start key service.sequenceWindows } :=
    fun _ _ => rfl
  rw [pruneScript]
  split
  · rename_i hempty
    rw [← hfold hwalk, List.isEmpty_iff.mp hempty]
    rfl
  · split
    · rw [alone_runSections, foldl_sections hsection, hfold hwalk]
    · rw [alone_runTasks, ← List.map_flatten, foldl_sections hsection]
      rw [hfold ((groupSequenceTasks_perm _ _ _).trans hwalk)]

/-- Merges into two sequences commute. -/
theorem sequenceStep_comm (project : ProjectId) {prepared prepared' : PreparedSequenceUpdate}
    (h : prepared.sequenceId = prepared'.sequenceId → prepared = prepared')
    (windows : Table String SequenceWindow) :
    sequenceStep project prepared' (sequenceStep project prepared windows) =
      sequenceStep project prepared (sequenceStep project prepared' windows) := by
  by_cases hid : prepared.sequenceId = prepared'.sequenceId
  · rw [h hid]
  · exact (adjust_comm (fun hkey => hid (scopedSequenceKey_inj.mp hkey)) _ _ windows).symm

/-- The prepared updates in any order, spread over the pool. -/
theorem updates_alone (project : ProjectId) (points : List RawTimeseriesPoint)
    {ids walked : List SequenceId} (hwalk : walked.Perm ids) (service : WindowService) :
    ((groupSequenceTasks (preparedUpdates points walked) workerCount estimatedCost).map
        (List.map (updateSection project))).flatten.foldl (fun acc one => one.change acc) service =
      { service with
        sequenceWindows := (preparedUpdates points ids).foldl
          (fun acc prepared => sequenceStep project prepared acc) service.sequenceWindows } := by
  have hsection : ∀ prepared service, (updateSection project prepared).change service =
      { service with sequenceWindows := sequenceStep project prepared service.sequenceWindows } :=
    fun _ _ => rfl
  have hperm : (groupSequenceTasks (preparedUpdates points walked) workerCount
      estimatedCost).flatten.Perm (preparedUpdates points ids) :=
    (groupSequenceTasks_perm _ _ _).trans (hwalk.map _)
  rw [← List.map_flatten, foldl_sections hsection]
  refine congrArg (fun windows => { service with sequenceWindows := windows }) ?_
  refine hperm.foldl_eq' (fun x hx y hy windows => sequenceStep_comm project ?_ windows) _
  -- the prepared update of a sequence is the one made of its points
  intro hid
  obtain ⟨s, -, rfl⟩ := List.mem_map.mp (hperm.mem_iff.mp hx)
  obtain ⟨t, -, rfl⟩ := List.mem_map.mp (hperm.mem_iff.mp hy)
  rw [prepareUpdate_sequenceId, prepareUpdate_sequenceId] at hid
  rw [hid]

/-- Configuring, run alone, is the operation of the service. -/
theorem configure_alone (hwalk : ∀ keys, (walk keys).Perm keys) (projectId : ProjectId)
    (size : Int) (service : WindowService) :
    (configureScript workerCount walk projectId size).alone service =
      (configureWindowSize projectId size service).1 := by
  rw [configureScript, configureWindowSize]
  split
  · rfl
  · simp only [Script.alone]
    cases service.watermarks.find (effectiveProject projectId) with
    | none => rfl
    | some watermark =>
        simp only
        rw [pruneScript_alone _ (hwalk _)]
        rfl

/-- Replacing a derived sequence, run alone, is the operation of the service. -/
theorem replace_alone (hwalk : ∀ keys, (walk keys).Perm keys) (projectId : ProjectId)
    (sequenceId : SequenceId) (data : TimeseriesBatch) (service : WindowService) :
    (replaceScript workerCount walk projectId sequenceId data).alone service =
      (replaceDerivedSequence projectId sequenceId data service).1 := by
  cases hcheck : validateReplace projectId sequenceId data with
  | some error =>
      simp only [replaceScript, replaceDerivedSequence, hcheck]
      rfl
  | none =>
      simp only [replaceScript, replaceDerivedSequence, hcheck, sequenceWindowForScript,
        runSections, Script.alone]
      cases hfind : service.watermarks.find (effectiveProject projectId) with
      | none =>
          simp only [onSequence, hfind]
          rfl
      | some watermark =>
          simp only [onSequence, hfind, windowSizeScript, Script.alone]
          rw [pruneScript_alone _ (hwalk _)]
          rfl

theorem patch_alone (projectId : ProjectId) (sequenceId : SequenceId)
    (startTime endTime : Timestamp) (data : TimeseriesBatch) (service : WindowService) :
    (patchScript projectId sequenceId startTime endTime data).alone service =
      (patchDerivedSequence projectId sequenceId startTime endTime data service).1 := by
  rw [patchScript, patchDerivedSequence]
  cases validatePatch projectId sequenceId startTime endTime data with
  | some error => rfl
  | none => rfl

theorem update_alone (hwalk : ∀ keys, (walk keys).Perm keys) (projectId : ProjectId)
    (data : TimeseriesBatch) (override : Option Int) (service : WindowService) :
    (updateScript workerCount walk projectId data override).alone service =
      (updateWindowIncremental projectId data override service).1 := by
  rcases hread : readBatch projectId data override with ⟨result, _ | error⟩
  · simp only [updateScript, updateWindowIncremental, hread, Script.alone]
    rw [alone_runTasks, updates_alone _ _ (hwalk _), pruneScript_alone _ (hwalk _),
      runSequenceSteps_fst]
    rfl
  · simp only [updateScript, updateWindowIncremental, hread]
    rfl

/-- Sections that only read. -/
theorem readSections_alone {α : Type} (key : α → String) (items : List α)
    (service : WindowService) :
    (runSections (items.map fun item => onSequence .shared (key item) id) .done).alone service =
      service := by
  rw [alone_runSections]
  induction items with
  | nil => rfl
  | cons item items ih => exact ih

/-- A query, run alone, changes nothing. -/
theorem queryData_alone (projectId : ProjectId) (query : WindowQuery) (service : WindowService) :
    (queryDataScript capacity projectId query).alone service = service := by
  rw [queryDataScript]
  split
  · rfl
  · split
    · rfl
    · simp only [Script.alone]
      split
      · rfl
      · split
        · rfl
        · split
          · rfl
          · split
            · rfl
            · exact readSections_alone _ _ service

/-- Adjusting a window neither adds nor removes one. -/
theorem isSome_find_adjust (key other : String) (change : SequenceWindow → SequenceWindow)
    (windows : Table String SequenceWindow) :
    ((adjust key change windows).find other).isSome = (windows.find other).isSome := by
  rw [find_adjust]
  split
  · exact Option.isSome_map
  · rfl

/-- A change of an entry that is known. -/
theorem adjust_of_find {key : String} {w : SequenceWindow} {windows : Table String SequenceWindow}
    (h : windows.find key = some w) (change : SequenceWindow → SequenceWindow) :
    adjust key change windows = adjust key (fun _ => change w) windows := by
  refine Table.ext rfl (funext fun other => ?_)
  rw [find_adjust, find_adjust]
  split
  · rename_i hother
    rw [hother, h]
    rfl
  · rfl

/-- The loop over the sequences that are there is the loop over all ids. -/
theorem statistics_alone (project : ProjectId) (ids : List SequenceId) (service : WindowService)
    (statistics : Table SequenceId SequenceWindowStatistics) (count : Nat) :
    (statisticsSections project (ids.filter fun s =>
        (service.sequenceWindows.find (scopedSequenceKey project s)).isSome)).alone service =
      { service with
        sequenceWindows :=
          (statisticsLoop project ids service.sequenceWindows statistics count).1 } := by
  induction ids generalizing service statistics count with
  | nil => rfl
  | cons s ids ih =>
      rw [statisticsLoop]
      cases hfind : service.sequenceWindows.find (scopedSequenceKey project s) with
      | none =>
          rw [List.filter_cons_of_neg (by rw [hfind]; exact Bool.false_ne_true)]
          exact ih service statistics count
      | some w =>
          rw [List.filter_cons_of_pos (by rw [hfind]; rfl)]
          simp only [statisticsSections, Script.alone]
          rw [adjust_of_find hfind, find_adjust_self, hfind]
          simp only [Option.map_some]
          generalize hw : (if w.statisticsValid = true then w else rebuildStatistics w) = w'
          -- the sequences that are there stay
          have hrest := ih
            { service with
              sequenceWindows :=
                adjust (scopedSequenceKey project s) (fun _ => w') service.sequenceWindows }
          simp only [isSome_find_adjust] at hrest
          split
          · rfl
          · split
            · exact hrest statistics count
            · cases hmin : w'.statisticsMinimum with
              | nil => rfl
              | cons minimum minima =>
                  cases hmax : w'.statisticsMaximum with
                  | nil => rfl
                  | cons maximum maxima => exact hrest _ _

/-- The ids a lookup finds. -/
theorem findSequences_fst {project : ProjectId} {message : String} {service : WindowService}
    {ids : List SequenceId} {sequences : List (SequenceId × SequenceWindow)}
    (h : findSequences project message service ids = .ok sequences) :
    sequences.map Prod.fst = ids.filter fun s =>
      (service.sequenceWindows.find (scopedSequenceKey project s)).isSome := by
  have hne : ∀ s ∈ ids, s ≠ "" := by
    rintro s hs rfl
    obtain ⟨error, herror⟩ := findSequences_of_empty project message service hs
    rw [herror] at h
    cases h
  rw [findSequences_ok hne] at h
  obtain rfl := Except.ok.inj h
  clear h hne
  induction ids with
  | nil => rfl
  | cons s ids ih =>
      rw [List.filterMap_cons, List.filter_cons]
      cases service.sequenceWindows.find (scopedSequenceKey project s) with
      | none => exact ih
      | some w => exact congrArg (s :: ·) ih

/-- A query for statistics, run alone, is the operation of the service. -/
theorem queryStatistics_alone (projectId : ProjectId) (sequenceIds : List SequenceId)
    (service : WindowService) :
    (queryStatisticsScript projectId sequenceIds).alone service =
      (queryWindowStatistics projectId sequenceIds service).1 := by
  rw [queryStatisticsScript, queryWindowStatistics]
  split
  · rfl
  · simp only [Script.alone]
    cases hfound : findSequences (effectiveProject projectId)
        "window statistics sequence_id must not be empty" service sequenceIds with
    | error message => rfl
    | ok sequences =>
        cases service.watermarks.find (effectiveProject projectId) with
        | none => rfl
        | some watermark =>
            simp only
            split
            · rfl
            · rw [findSequences_fst hfound]
              exact statistics_alone _ sequenceIds service KeyedTable.empty 0

/-- What an operation leaves of the service. -/
def WindowOperation.effect : WindowOperation → WindowService → WindowService
  | .windowSize _, service => service
  | .configure projectId size, service => (configureWindowSize projectId size service).1
  | .replaceDerived projectId sequenceId data, service =>
      (replaceDerivedSequence projectId sequenceId data service).1
  | .patchDerived projectId sequenceId startTime endTime data, service =>
      (patchDerivedSequence projectId sequenceId startTime endTime data service).1
  | .update projectId data override, service =>
      (updateWindowIncremental projectId data override service).1
  | .queryData _ _, service => service
  | .queryStatistics projectId sequenceIds, service =>
      (queryWindowStatistics projectId sequenceIds service).1

/-- **One operation on its own**, with any pool and any order of the maps. -/
theorem script_alone (hwalk : ∀ keys, (walk keys).Perm keys) (operation : WindowOperation)
    (service : WindowService) :
    (operation.script workerCount capacity walk).alone service = operation.effect service := by
  cases operation with
  | windowSize projectId => rfl
  | configure projectId size => exact configure_alone hwalk projectId size service
  | replaceDerived projectId sequenceId data =>
      exact replace_alone hwalk projectId sequenceId data service
  | patchDerived projectId sequenceId startTime endTime data =>
      exact patch_alone projectId sequenceId startTime endTime data service
  | update projectId data override => exact update_alone hwalk projectId data override service
  | queryData projectId query => exact queryData_alone projectId query service
  | queryStatistics projectId sequenceIds =>
      exact queryStatistics_alone projectId sequenceIds service

end Alone

end LockedOperations
