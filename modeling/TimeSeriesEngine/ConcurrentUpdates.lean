import TimeSeriesEngine.WindowRefinement
import TimeSeriesEngine.Library.Transition

/-!
# Updates of one project that run at the same time

A call of `updateWindowIncremental` fixes its window start under the service's lock,
writes every sequence of its batch under that sequence's lock, and then prunes every
sequence of the project, one by one, with the window start it fixed.  Here the steps of
any number of calls interleave.

* `CallState`, `UpdateState`, `UpdateStep`, `after` — the steps;
* `call_alone` — one call on its own is `updateWindowIncremental`;
* `none_expired` — no point below the window is left when nobody runs, in every run in
  which each written point is inside the window or still to be pruned;
* `expired_point_left` — a run that leaves one.
-/

namespace ConcurrentUpdates

open TseTypes KeyedTable OrderedSeries SeqWindow SeqContent HotWindow WindowContent WindowUpdate Transition

/-- What a running call has fixed, and what it still has to do. -/
structure CallState where
  windowStart : Timestamp := 0
  pending : List PreparedSequenceUpdate := []
  unpruned : List String := []

/-- The service, and the calls that are under way. -/
structure UpdateState where
  service : WindowService
  calls : Nat → CallState := fun _ => {}

/-- What a call of `updateWindowIncremental` does in one piece. -/
inductive UpdateStep where
  /-- The step under the service's own lock. -/
  | enter (call : Nat) (data : TimeseriesBatch) (override : Option Int)
  /-- One prepared update, under the lock of its sequence. -/
  | update (call : Nat) (prepared : PreparedSequenceUpdate)
  /-- One prune, under the lock of its sequence. -/
  | prune (call : Nat) (key : String)

/-- A call goes on. -/
def UpdateState.setCall (state : UpdateState) (call : Nat) (changed : CallState) : UpdateState :=
  { state with calls := fun other => if other = call then changed else state.calls other }

/-- The windows change. -/
def UpdateState.setWindows (state : UpdateState) (windows : Table String SequenceWindow) :
    UpdateState :=
  { state with service := { state.service with sequenceWindows := windows } }

/-- The state behind a step; a call that is refused changes nothing. -/
def after (p : ProjectId) (state : UpdateState) : UpdateStep → UpdateState
  | .enter call data override =>
      match readBatch p data override with
      | (_, some _) => state
      | (result, none) =>
          let (service, plan) := metadataStep (effectiveProject p) override data.points
            result.changedSequenceIds state.service
          { state with service := service }.setCall call
            { windowStart := plan.windowStart
              pending := preparedUpdates data.points result.changedSequenceIds
              unpruned := plan.sequences }
  | .update call prepared =>
      (state.setWindows
        (sequenceStep (effectiveProject p) prepared state.service.sequenceWindows)).setCall call
        { state.calls call with
          pending := (state.calls call).pending.filter fun other =>
            other.sequenceId ≠ prepared.sequenceId }
  | .prune call key =>
      (state.setWindows
        (pruneStep (state.calls call).windowStart key state.service.sequenceWindows)).setCall call
        { state.calls call with
          unpruned := (state.calls call).unpruned.filter fun other => other ≠ key }

/-- The call does not run. -/
def CallState.Idle (call : CallState) : Prop := call.pending = [] ∧ call.unpruned = []

/-- The step is one the call can take next: the prunes wait for all updates. -/
def Enabled (state : UpdateState) : UpdateStep → Prop
  | .enter call _ _ => (state.calls call).Idle
  | .update call prepared => prepared ∈ (state.calls call).pending
  | .prune call key => (state.calls call).pending = [] ∧ key ∈ (state.calls call).unpruned

/-- The point is inside the project's window. -/
def InWindow (p : ProjectId) (service : WindowService) (q : RawTimeseriesPoint) : Prop :=
  ∀ watermark, service.watermarks.find (effectiveProject p) = some watermark →
    windowStart watermark (windowSize p service) ≤ q.time

/-- A running call will prune the point. -/
def StillPruned (state : UpdateState) (key : String) (q : RawTimeseriesPoint) : Prop :=
  ∃ call, key ∈ (state.calls call).unpruned ∧ q.time < (state.calls call).windowStart

/-- A written point is inside the window, or a running call will prune it. -/
def Swept (p : ProjectId) (state : UpdateState) : UpdateStep → Prop
  | .update _ prepared => ∀ q ∈ prepared.incoming, InWindow p state.service q ∨
      StillPruned state (scopedSequenceKey (effectiveProject p) prepared.sequenceId) q
  | _ => True

/-- No sequence of the project holds a point below the window. -/
def NoneExpired (p : ProjectId) (service : WindowService) : Prop :=
  ∀ key, hasPrefix (scopePrefix (effectiveProject p)) key = true →
    ∀ q ∈ contentOf key service.sequenceWindows, InWindow p service q

/-- No call runs. -/
def Quiet (state : UpdateState) : Prop := ∀ call, (state.calls call).Idle

@[simp] theorem setCall_self (state : UpdateState) (call : Nat) (changed : CallState) :
    (state.setCall call changed).calls call = changed := if_pos rfl

theorem setCall_other (state : UpdateState) {call other : Nat} (changed : CallState)
    (h : other ≠ call) : (state.setCall call changed).calls other = state.calls other := if_neg h

/-- What holds of every call still does after one has changed. -/
theorem calls_setCall {good : CallState → Prop} {state : UpdateState}
    (h : ∀ other, good (state.calls other)) {call : Nat} {changed : CallState}
    (hchanged : good changed) (other : Nat) : good ((state.setCall call changed).calls other) := by
  by_cases hother : other = call
  · rw [hother, setCall_self]
    exact hchanged
  · rw [setCall_other state changed hother]
    exact h other

/-- The call that takes the step. -/
def UpdateStep.call : UpdateStep → Nat
  | .enter call _ _ | .update call _ | .prune call _ => call

/-- A step changes its own call only. -/
theorem calls_after {p : ProjectId} {state : UpdateState} {action : UpdateStep} {other : Nat}
    (h : other ≠ action.call) : (after p state action).calls other = state.calls other := by
  cases action with
  | enter call data override =>
      rw [after]
      split
      · rfl
      · exact setCall_other _ _ h
  | update call prepared => exact setCall_other _ _ h
  | prune call key => exact setCall_other _ _ h

theorem calls_run {p : ProjectId} {state : UpdateState} {steps : List UpdateStep} {other : Nat}
    (h : ∀ action ∈ steps, other ≠ action.call) :
    (run (after p) state steps).calls other = state.calls other :=
  @run_invariant _ _ (after p) (fun reached => reached.calls other = state.calls other)
    (fun action : UpdateStep => other ≠ action.call)
    (fun _ _ hstep hreached => (calls_after hstep).trans hreached) state rfl steps h

/-! ## One call on its own -/

/-- The merges of a call, one after the other. -/
theorem run_updates (p : ProjectId) (call : Nat) (preps : List PreparedSequenceUpdate)
    (state : UpdateState) :
    (run (after p) state (preps.map (UpdateStep.update call))).service =
        { state.service with
          sequenceWindows := preps.foldl
            (fun acc prepared => sequenceStep (effectiveProject p) prepared acc)
            state.service.sequenceWindows } ∧
      ((run (after p) state (preps.map (UpdateStep.update call))).calls call).windowStart =
        (state.calls call).windowStart := by
  induction preps generalizing state with
  | nil => exact ⟨rfl, rfl⟩
  | cons prepared preps ih =>
      obtain ⟨hservice, hstart⟩ := ih (after p state (.update call prepared))
      rw [List.map_cons, run_cons]
      refine ⟨hservice, hstart.trans ?_⟩
      rw [after, setCall_self]

/-- The prunes of a call, one after the other. -/
theorem run_prunes (p : ProjectId) (call : Nat) (keys : List String) (state : UpdateState) :
    (run (after p) state (keys.map (UpdateStep.prune call))).service =
      { state.service with
        sequenceWindows :=
          (pruneExpiredPoints (state.calls call).windowStart keys state.service.sequenceWindows).1 } := by
  induction keys generalizing state with
  | nil => rfl
  | cons key keys ih =>
      rw [List.map_cons, run_cons, ih, after, setCall_self]
      rfl

/-- The steps of one call, in the order of one thread. -/
def callSteps (p : ProjectId) (call : Nat) (data : TimeseriesBatch) (override : Option Int)
    (service : WindowService) : List UpdateStep :=
  let ids := (noteAll p data.points).changedSequenceIds
  .enter call data override ::
    ((preparedUpdates data.points ids).map (UpdateStep.update call) ++
      (metadataStep (effectiveProject p) override data.points ids service).2.sequences.map
        (UpdateStep.prune call))

/-- **One call on its own** leaves what `updateWindowIncremental` leaves. -/
theorem call_alone {p : ProjectId} {data : TimeseriesBatch} {override : Option Int}
    (hacc : Accepted p data override) (call : Nat) (state : UpdateState) :
    (run (after p) state (callSteps p call data override state.service)).service =
      (updateWindowIncremental p data override state.service).1 := by
  have hread := readBatch_accepted hacc
  rw [callSteps, run_cons, run_append, run_prunes]
  obtain ⟨hservice, hstart⟩ := run_updates p call
    (preparedUpdates data.points (noteAll p data.points).changedSequenceIds)
    (after p state (.enter call data override))
  rw [hservice, hstart, after, hread]
  simp only [setCall_self]
  rw [update_eq hacc, metadataStep_windowStart]
  rfl

/-! ## What every run keeps -/

/-- A prepared update is sorted, and its sequence exists. -/
def Prepared (p : ProjectId) (windows : Table String SequenceWindow) (call : CallState) : Prop :=
  ∀ prepared ∈ call.pending, Ascending RawTimeseriesPoint.time prepared.incoming ∧
    scopedSequenceKey (effectiveProject p) prepared.sequenceId ∈ windows.keys

/-- The invariant: valid windows, and prepared updates whose windows are there. -/
structure UpdateInv (p : ProjectId) (state : UpdateState) : Prop where
  valid : AllValid state.service.sequenceWindows
  prepared : ∀ call, Prepared p state.service.sequenceWindows (state.calls call)
  /-- A point below the window is one a running call will prune. -/
  covered : ∀ key, hasPrefix (scopePrefix (effectiveProject p)) key = true →
    ∀ q ∈ contentOf key state.service.sequenceWindows,
      InWindow p state.service q ∨ StillPruned state key q

theorem updateInv_start {p : ProjectId} {service : WindowService}
    (hvalid : AllValid service.sequenceWindows) (h : NoneExpired p service) :
    UpdateInv p { service := service } where
  valid := hvalid
  prepared _ _ hprepared := absurd hprepared List.not_mem_nil
  covered key hkey q hq := Or.inl (h key hkey q hq)

/-- The service after a call has entered. -/
def entered (p : ProjectId) (data : TimeseriesBatch) (override : Option Int)
    (service : WindowService) : WindowService × UpdatePlan :=
  metadataStep (effectiveProject p) override data.points (noteAll p data.points).changedSequenceIds
    service

/-- The metadata section of an accepted call. -/
theorem after_enter {p : ProjectId} {data : TimeseriesBatch} {override : Option Int}
    (hacc : Accepted p data override) (state : UpdateState) (call : Nat) :
    after p state (.enter call data override) =
      { state with service := (entered p data override state.service).1 }.setCall call
        { windowStart := startAfter p data override state.service
          pending := preparedUpdates data.points (noteAll p data.points).changedSequenceIds
          unpruned := projectKeys (effectiveProject p) (entered p data override state.service).1 } := by
  rw [after, readBatch_accepted hacc, ← metadataStep_windowStart]
  rfl

theorem after_enter_rejected {p : ProjectId} {data : TimeseriesBatch} {override : Option Int}
    (hacc : ¬ Accepted p data override) (state : UpdateState) (call : Nat) :
    after p state (.enter call data override) = state := by
  rcases readBatch_cases p data override with ⟨hyes, -⟩ | ⟨-, result, error, hread⟩
  · exact absurd hyes hacc
  · rw [after, hread]

/-- A point not older than the new start is inside the window. -/
theorem inWindow_entered {p : ProjectId} {data : TimeseriesBatch} {override : Option Int}
    {service : WindowService} {q : RawTimeseriesPoint}
    (h : startAfter p data override service ≤ q.time) :
    InWindow p (entered p data override service).1 q := by
  intro watermark hfind
  have hwatermark : watermarkAfter p data service = watermark := by
    have hput : (entered p data override service).1.watermarks.find (effectiveProject p) =
        some (watermarkAfter p data service) := find_put_self ..
    exact Option.some.inj (hput.symm.trans hfind)
  have hsize : windowSize p (entered p data override service).1 =
      windowSizeAfter p override service := by
    show ((applyOverride _ override service.windowSizes).find _).getD _ = _
    cases override with
    | none => rfl
    | some size => simp [windowSizeAfter, applyOverride]
  rw [hsize, ← hwatermark]
  exact h

theorem mem_entered (p : ProjectId) (data : TimeseriesBatch) (override : Option Int)
    (service : WindowService) (key : String) :
    key ∈ (entered p data override service).1.sequenceWindows.keys ↔
      key ∈ service.sequenceWindows.keys ∨ ∃ s ∈ (noteAll p data.points).changedSequenceIds,
        key = scopedSequenceKey (effectiveProject p) s :=
  mem_createSequences ..

/-- A call that enters prunes every sequence there is, from the new window start. -/
theorem UpdateInv.enter {p : ProjectId} {state : UpdateState} (h : UpdateInv p state) (call : Nat)
    (data : TimeseriesBatch) (override : Option Int) :
    UpdateInv p (after p state (.enter call data override)) := by
  by_cases hacc : Accepted p data override
  · rw [after_enter hacc]
    refine ⟨createSequences_valid h.valid _ _, ?_, ?_⟩
    · refine calls_setCall (fun other prepared hprepared => ?_) fun prepared hprepared => ?_
      · obtain ⟨hsorted, hkey⟩ := h.prepared other prepared hprepared
        exact ⟨hsorted, (mem_entered ..).mpr (Or.inl hkey)⟩
      · obtain ⟨s, hs, rfl⟩ := List.mem_map.mp hprepared
        refine ⟨prepareUpdate_ascending .., (mem_entered ..).mpr (Or.inr ⟨s, hs, ?_⟩)⟩
        rw [prepareUpdate_sequenceId]
    · intro key hkey q hq
      by_cases hnew : startAfter p data override state.service ≤ q.time
      · exact Or.inl (inWindow_entered hnew)
      · refine Or.inr ⟨call, ?_, ?_⟩
        · rw [setCall_self]
          refine List.mem_filter.mpr ⟨?_, hkey⟩
          by_contra habsent
          have hnil := contentOf_of_not_mem habsent
          change q ∈ contentOf key (entered p data override state.service).1.sequenceWindows at hq
          rw [hnil] at hq
          exact List.not_mem_nil hq
        · rw [setCall_self]
          exact not_le.mp hnew
  · rw [after_enter_rejected hacc]
    exact h

/-- A written point is covered by assumption, the points beside it as before. -/
theorem UpdateInv.update {p : ProjectId} {state : UpdateState} (h : UpdateInv p state) {call : Nat}
    {prepared : PreparedSequenceUpdate} (henabled : Enabled state (.update call prepared))
    (hswept : Swept p state (.update call prepared)) :
    UpdateInv p (after p state (.update call prepared)) := by
  obtain ⟨hsorted, hkey⟩ := h.prepared call prepared henabled
  -- the pending prunes are those of before
  have hstill : ∀ {key q}, StillPruned state key q →
      StillPruned (after p state (.update call prepared)) key q := by
    rintro key q ⟨other, hmem, hlt⟩
    refine ⟨other, ?_⟩
    rw [after]
    by_cases hother : other = call
    · rw [hother, setCall_self]
      rw [hother] at hmem hlt
      exact ⟨hmem, hlt⟩
    · rw [setCall_other _ _ hother]
      exact ⟨hmem, hlt⟩
  refine ⟨sequenceStep_valid h.valid _ hsorted, ?_, ?_⟩
  · refine calls_setCall (fun other => h.prepared other) fun one hone => ?_
    exact h.prepared call one (List.mem_filter.mp hone).1
  · intro key hprefix q hq
    rw [after] at hq
    change q ∈ contentOf key (sequenceStep _ prepared state.service.sequenceWindows) at hq
    rw [sequenceStep_contentOf h.valid _ hsorted hkey] at hq
    split at hq
    · rename_i hself
      rcases mem_of_mem_assignAll _ hq with hnew | hold
      · rw [hself]
        exact (hswept q hnew).imp (fun hin => hin) hstill
      · exact (h.covered key hprefix q hold).imp (fun hin => hin) hstill
    · exact (h.covered key hprefix q hq).imp (fun hin => hin) hstill

/-- A prune leaves no point it was to remove. -/
theorem UpdateInv.prune {p : ProjectId} {state : UpdateState} (h : UpdateInv p state) (call : Nat)
    (key : String) : UpdateInv p (after p state (.prune call key)) := by
  refine ⟨pruneStep_allValid h.valid _ _, ?_, ?_⟩
  · exact calls_setCall (fun other => h.prepared other) (h.prepared call)
  · intro other hprefix q hq
    rw [after] at hq
    change q ∈ contentOf other (pruneStep _ key state.service.sequenceWindows) at hq
    rw [pruneStep_contentOf h.valid] at hq
    have hmem : q ∈ contentOf other state.service.sequenceWindows := by
      split at hq
      · exact (List.mem_filter.mp hq).1
      · exact hq
    refine (h.covered other hprefix q hmem).imp (fun hin => hin) ?_
    rintro ⟨later, hlater, hlt⟩
    refine ⟨later, ?_⟩
    rw [after]
    by_cases hcall : later = call
    · rw [hcall] at hlater hlt
      rw [hcall, setCall_self]
      refine ⟨List.mem_filter.mpr ⟨hlater, decide_eq_true fun hself => ?_⟩, hlt⟩
      rw [if_pos hself] at hq
      exact not_le.mpr hlt (of_decide_eq_true (List.mem_filter.mp hq).2)
    · rw [setCall_other _ _ hcall]
      exact ⟨hlater, hlt⟩

/-- Each section keeps the invariant. -/
theorem UpdateInv.step {p : ProjectId} {state : UpdateState} {action : UpdateStep}
    (henabled : Enabled state action) (hswept : Swept p state action) (h : UpdateInv p state) :
    UpdateInv p (after p state action) := by
  cases action with
  | enter call data override => exact h.enter call data override
  | update call prepared => exact h.update henabled hswept
  | prune call key => exact h.prune call key

/-- **No point below the window is left when no call runs**, when every written point is
    inside the window or still to be pruned by a call that runs. -/
theorem none_expired {p : ProjectId} {service : WindowService}
    (hvalid : AllValid service.sequenceWindows) (hstart : NoneExpired p service)
    {steps : List UpdateStep} (henabled : Admissible (after p) Enabled { service := service } steps)
    (hswept : Admissible (after p) (Swept p) { service := service } steps)
    (hquiet : Quiet (run (after p) { service := service } steps)) :
    NoneExpired p (run (after p) { service := service } steps).service := by
  have hinv : UpdateInv p (run (after p) { service := service } steps) :=
    admissible_invariant (fun _ _ hok h => h.step hok.1 hok.2) (updateInv_start hvalid hstart)
      (henabled.and hswept)
  intro key hprefix q hq
  rcases hinv.covered key hprefix q hq with hin | ⟨call, hmem, -⟩
  · exact hin
  · rw [(hquiet call).2] at hmem
    exact absurd hmem List.not_mem_nil

/-! ## What an uncovered point leads to -/

/-- A point below the window that no running call will prune. -/
structure Uncovered (p : ProjectId) (key : String) (t : Timestamp) (state : UpdateState) : Prop where
  valid : AllValid state.service.sequenceWindows
  prepared : ∀ call, Prepared p state.service.sequenceWindows (state.calls call)
  held : ∃ q ∈ contentOf key state.service.sequenceWindows, q.time = t
  below : ∃ watermark, state.service.watermarks.find (effectiveProject p) = some watermark ∧
    t < windowStart watermark (windowSize p state.service)
  missed : ∀ call, key ∈ (state.calls call).unpruned → (state.calls call).windowStart ≤ t

/-- The step is the first of a call. -/
def Enters : UpdateStep → Prop
  | .enter _ _ _ => True
  | _ => False

/-- Assigning keeps every time that is there. -/
theorem time_assignAll {base : List RawTimeseriesPoint} (h : Ascending RawTimeseriesPoint.time base)
    {incoming : List RawTimeseriesPoint} (hsorted : Ascending RawTimeseriesPoint.time incoming)
    {q : RawTimeseriesPoint} (hq : q ∈ base) :
    ∃ q' ∈ assignAll RawTimeseriesPoint.time incoming base, q'.time = q.time := by
  by_cases hnew : ∃ x ∈ incoming, x.time = q.time
  · obtain ⟨x, hx, htime⟩ := hnew
    exact ⟨x, (mem_assignAll_ascending _ h hsorted x).mpr (Or.inl hx), htime⟩
  · refine ⟨q, (mem_assignAll_ascending _ h hsorted q).mpr (Or.inr ⟨hq, fun x hx htime => ?_⟩), rfl⟩
    exact hnew ⟨x, hx, htime⟩

/-- The written point an update leaves uncovered stays, whatever the running calls do. -/
theorem Uncovered.step {p : ProjectId} {key : String} {t : Timestamp} {state : UpdateState}
    {action : UpdateStep} (henabled : Enabled state action) (hno : ¬ Enters action)
    (h : Uncovered p key t state) : Uncovered p key t (after p state action) := by
  obtain ⟨q, hq, htime⟩ := h.held
  cases action with
  | enter call data override => exact absurd trivial hno
  | update call prepared =>
      obtain ⟨hsorted, hkey⟩ := h.prepared call prepared henabled
      have hcalls : ∀ other, key ∈ ((after p state (.update call prepared)).calls other).unpruned →
          ((after p state (.update call prepared)).calls other).windowStart ≤ t :=
        @calls_setCall (fun changed => key ∈ changed.unpruned → changed.windowStart ≤ t) _
          h.missed _ _ (h.missed call)
      refine ⟨sequenceStep_valid h.valid _ hsorted, ?_, ?_, h.below, hcalls⟩
      · refine calls_setCall (fun other => h.prepared other) fun one hone => ?_
        exact h.prepared call one (List.mem_filter.mp hone).1
      · show ∃ q ∈ contentOf key (sequenceStep _ prepared state.service.sequenceWindows), _
        rw [sequenceStep_contentOf h.valid _ hsorted hkey]
        split
        · obtain ⟨q', hq', hsame⟩ := time_assignAll (h.valid.ascending key) hsorted hq
          exact ⟨q', hq', hsame.trans htime⟩
        · exact ⟨q, hq, htime⟩
  | prune call pruned =>
      refine ⟨pruneStep_allValid h.valid _ _, ?_, ?_, h.below, ?_⟩
      · exact calls_setCall (fun other => h.prepared other) (h.prepared call)
      · show ∃ q ∈ contentOf key (pruneStep _ pruned state.service.sequenceWindows), _
        rw [pruneStep_contentOf h.valid]
        split
        · rename_i hself
          refine ⟨q, List.mem_filter.mpr ⟨hq, decide_eq_true ?_⟩, htime⟩
          rw [htime]
          exact h.missed call (hself ▸ henabled.2)
        · exact ⟨q, hq, htime⟩
      · exact @calls_setCall (fun changed => key ∈ changed.unpruned → changed.windowStart ≤ t) _
          h.missed _ _ fun hmem => h.missed call (List.mem_filter.mp hmem).1

/-- An update that breaks the condition leaves an uncovered point. -/
theorem uncovered_of_not_swept {p : ProjectId} {state : UpdateState} (h : UpdateInv p state)
    {call : Nat} {prepared : PreparedSequenceUpdate}
    (henabled : Enabled state (.update call prepared))
    (hswept : ¬ Swept p state (.update call prepared)) :
    ∃ t, Uncovered p (scopedSequenceKey (effectiveProject p) prepared.sequenceId) t
      (after p state (.update call prepared)) := by
  obtain ⟨hsorted, hkey⟩ := h.prepared call prepared henabled
  simp only [Swept, not_forall, not_or] at hswept
  obtain ⟨q, hq, hout, hmissed⟩ := hswept
  have hinv : ∀ other, Prepared p state.service.sequenceWindows
      ((after p state (.update call prepared)).calls other) :=
    calls_setCall (fun other => h.prepared other) fun one hone =>
      h.prepared call one (List.mem_filter.mp hone).1
  refine ⟨q.time, sequenceStep_valid h.valid _ hsorted, hinv, ⟨q, ?_, rfl⟩, ?_, ?_⟩
  · show q ∈ contentOf _ (sequenceStep _ prepared state.service.sequenceWindows)
    rw [sequenceStep_contentOf h.valid _ hsorted hkey, if_pos rfl,
      mem_assignAll_ascending _ (h.valid.ascending _) hsorted]
    exact Or.inl hq
  · simp only [InWindow, not_forall] at hout
    obtain ⟨watermark, hfind, hlt⟩ := hout
    exact ⟨watermark, hfind, not_le.mp hlt⟩
  · have hcalls : ∀ other, scopedSequenceKey (effectiveProject p) prepared.sequenceId ∈
        (state.calls other).unpruned → (state.calls other).windowStart ≤ q.time :=
      fun other hmem => not_lt.mp fun hlt => hmissed ⟨other, hmem, hlt⟩
    exact @calls_setCall (fun changed => scopedSequenceKey (effectiveProject p)
      prepared.sequenceId ∈ changed.unpruned → changed.windowStart ≤ q.time) _ hcalls _ _
      (hcalls call)

/-- **Without the condition a point below the window is left**: an update that breaks it
    writes one that stays until another call enters. -/
theorem expired_of_not_swept {p : ProjectId} {state : UpdateState} (h : UpdateInv p state)
    {call : Nat} {prepared : PreparedSequenceUpdate}
    (henabled : Enabled state (.update call prepared))
    (hswept : ¬ Swept p state (.update call prepared)) {steps : List UpdateStep}
    (hrest : Admissible (after p) Enabled (after p state (.update call prepared)) steps)
    (hno : ∀ action ∈ steps, ¬ Enters action) :
    ¬ NoneExpired p (run (after p) (after p state (.update call prepared)) steps).service := by
  obtain ⟨t, huncovered⟩ := uncovered_of_not_swept h henabled hswept
  have hleft := admissible_invariant (fun _ _ hok h => Uncovered.step hok.1 hok.2 h) huncovered
    (hrest.and (admissible_of_forall hno))
  obtain ⟨q, hq, htime⟩ := hleft.held
  obtain ⟨watermark, hfind, hlt⟩ := hleft.below
  intro hnone
  have hprefix := hasPrefix_scopedSequenceKey (effectiveProject p) prepared.sequenceId
  rw [effectiveProject_idem] at hprefix
  have hin := hnone _ hprefix q hq watermark hfind
  rw [htime] at hin
  exact absurd hlt (not_lt.mpr hin)

/-! ## Two calls on two sequences -/

/-- A number at a time. -/
private def pointAt (s : SequenceId) (time : Timestamp) : RawTimeseriesPoint :=
  { time := time, sequenceId := s, value := .double (.finite 1) }

/-- A window of 10 ms, and nothing in it. -/
private def tenWide : WindowService := (configureWindowSize "p" 10 {}).1

/-- What the older call has for `s`. -/
private def olderUpdate : PreparedSequenceUpdate := prepareUpdate "s" [pointAt "s" 0]

/-- What the newer call has for `t`. -/
private def newerUpdate : PreparedSequenceUpdate := prepareUpdate "t" [pointAt "t" 100]

/-- Two calls enter; the newer one is done with both sequences before the older one
    writes `s`. -/
private def overtakenSteps : List UpdateStep :=
  [.enter 0 { points := [pointAt "s" 0] } none, .enter 1 { points := [pointAt "t" 100] } none,
    .update 1 newerUpdate, .prune 1 (scopedSequenceKey "p" "s"),
    .prune 1 (scopedSequenceKey "p" "t"), .update 0 olderUpdate,
    .prune 0 (scopedSequenceKey "p" "s")]

/-- The same calls; the older one writes before the newer one prunes. -/
private def orderedSteps : List UpdateStep :=
  [.enter 0 { points := [pointAt "s" 0] } none, .enter 1 { points := [pointAt "t" 100] } none,
    .update 0 olderUpdate, .update 1 newerUpdate, .prune 0 (scopedSequenceKey "p" "s"),
    .prune 1 (scopedSequenceKey "p" "s"), .prune 1 (scopedSequenceKey "p" "t")]

theorem tenWide_empty : tenWide.sequenceWindows = KeyedTable.empty := rfl

/-- With the first of two calls idle, and the second, no call is under way. -/
theorem quiet_of_two {service : WindowService} {steps : List UpdateStep}
    (hcalls : (steps.all fun action => decide (action.call < 2)) = true)
    (hzero : ((run (after "p") { service := service } steps).calls 0).Idle)
    (hone : ((run (after "p") { service := service } steps).calls 1).Idle) :
    Quiet (run (after "p") { service := service } steps) := by
  intro call
  rcases call with _ | _ | call
  · exact hzero
  · exact hone
  · rw [calls_run]
    · exact ⟨rfl, rfl⟩
    · intro action haction heq
      have hlt : action.call < 2 := of_decide_eq_true (List.all_eq_true.mp hcalls action haction)
      omega

theorem tenWide_noneExpired : NoneExpired "p" tenWide := by
  intro key _ q hq
  rw [tenWide_empty] at hq
  cases hq

/-- Two calls, their sections interleaved in order. -/
theorem none_expired_ordered :
    NoneExpired "p" (run (after "p") { service := tenWide } orderedSteps).service := by
  refine none_expired (by rw [tenWide_empty]; exact allValid_empty) tenWide_noneExpired
    ⟨⟨rfl, rfl⟩, ⟨rfl, rfl⟩, List.mem_singleton.mpr rfl, List.mem_singleton.mpr rfl,
      ⟨rfl, by decide +kernel⟩, ⟨rfl, by decide +kernel⟩, ⟨rfl, by decide +kernel⟩, trivial⟩
    ⟨trivial, trivial, fun q hq => ?_, fun q hq => ?_, trivial, trivial, trivial, trivial⟩
    (quiet_of_two rfl ⟨rfl, by decide +kernel⟩ ⟨rfl, by decide +kernel⟩)
  · rw [List.mem_singleton.mp hq]
    exact Or.inr ⟨1, by decide +kernel, by decide +kernel⟩
  · rw [List.mem_singleton.mp hq]
    refine Or.inl fun watermark hfind => ?_
    obtain rfl : 100 = watermark := Option.some.inj hfind
    decide +kernel

/-- The newer call prunes `s` up to 90, then the older one writes `s@0` and prunes up
    to -10. -/
theorem expired_point_left :
    let state := run (after "p") { service := tenWide } overtakenSteps
    Admissible (after "p") Enabled { service := tenWide } overtakenSteps ∧ Quiet state ∧
      windowSize "p" state.service = windowSize "p" tenWide ∧ ¬ NoneExpired "p" state.service := by
  refine ⟨⟨⟨rfl, rfl⟩, ⟨rfl, rfl⟩, List.mem_singleton.mpr rfl, ⟨rfl, by decide +kernel⟩,
    ⟨rfl, by decide +kernel⟩, List.mem_singleton.mpr rfl, ⟨rfl, by decide +kernel⟩, trivial⟩,
    quiet_of_two rfl ⟨rfl, by decide +kernel⟩ ⟨rfl, by decide +kernel⟩, by decide +kernel, ?_⟩
  intro hnone
  have hheld : contentOf (scopedSequenceKey "p" "s")
      (run (after "p") { service := tenWide } overtakenSteps).service.sequenceWindows =
        [pointAt "s" 0] := by decide +kernel
  have hin := hnone (scopedSequenceKey "p" "s") (by decide +kernel) (pointAt "s" 0)
    (by rw [hheld]; exact List.mem_singleton_self _) 100 (by decide +kernel)
  revert hin
  decide +kernel

end ConcurrentUpdates
