import TimeSeriesEngine.WindowRefinement

/-!
# Runs of the window service, all projects together

Every operation of the service is made of a few operations on single windows.
A property of a window that holds of a new one and that these few keep (`Kept`)
therefore holds of every stored window after every run (`Kept.run`).
-/

namespace WindowRuns

open TseTypes KeyedTable OrderedSeries SeqWindow SeqContent HotWindow WindowContent WindowUpdate
open WindowRefinement Transition

/-- One operation of one project. -/
structure ServiceCall where
  projectId : ProjectId
  op : WindowOp

/-- The service behind a call. -/
def callStep (service : WindowService) (call : ServiceCall) : WindowService :=
  serviceStep call.projectId service call.op

/-- Every stored window has the property. -/
def EachWindow (P : SequenceWindow → Prop) (windows : Table String SequenceWindow) : Prop :=
  ∀ key w, windows.find key = some w → P w

/-- A new window has the property, and no operation on a window loses it. -/
structure Kept (P : SequenceWindow → Prop) : Prop where
  new : P {}
  update : ∀ w prepared, Ascending RawTimeseriesPoint.time prepared.incoming → P w →
    P (updateSequence w prepared).1
  prune : ∀ w start, P w → P (pruneOne start w).1
  replace : ∀ w data, P w → P (replaceSequence w data)
  patch : ∀ w startTime endTime data, startTime ≤ endTime → P w →
    P (patchSequence w startTime endTime data)
  rebuild : ∀ w, P w → P (rebuildStatistics w)

/-- Validity is kept by every operation. -/
theorem kept_valid : Kept Valid where
  new := valid_new
  update := fun _ _ hi hv => updateSequence_valid hv hi
  prune := fun _ start hv => pruneOne_valid hv start
  replace := fun w data _ => replaceSequence_valid w data
  patch := fun _ _ _ data hle hv => patchSequence_valid hv hle data
  rebuild := fun _ hv => rebuildStatistics_valid hv

/-! ## One window changes -/

variable {P : SequenceWindow → Prop} {windows : Table String SequenceWindow}

/-- Changing one window. -/
theorem EachWindow.adjust (h : EachWindow P windows) (key : String)
    {f : SequenceWindow → SequenceWindow} (hf : ∀ w, P w → P (f w)) :
    EachWindow P (adjust key f windows) := by
  intro key' w' hw'
  by_cases hk : key' = key
  · subst hk
    rw [find_adjust_self] at hw'
    obtain ⟨w, hw, rfl⟩ := Option.map_eq_some_iff.mp hw'
    exact hf w (h key' w hw)
  · rw [find_adjust_of_ne hk] at hw'
    exact h key' w' hw'

/-- Creating a window. -/
theorem EachWindow.ensure (h : EachWindow P windows) (hnew : P {}) (key : String) :
    EachWindow P (ensure key {} windows) := by
  intro key' w' hw'
  rw [find_ensure] at hw'
  by_cases hk : key' = key
  · subst hk
    rw [if_pos rfl] at hw'
    cases hfind : windows.find key' with
    | none =>
        rw [hfind] at hw'
        exact Option.some.inj hw' ▸ hnew
    | some w =>
        rw [hfind] at hw'
        exact Option.some.inj hw' ▸ h key' w hfind
  · rw [if_neg hk] at hw'
    exact h key' w' hw'

theorem EachWindow.pruneExpired (h : EachWindow P windows) (hP : Kept P) (start : Timestamp)
    (keys : List String) : EachWindow P (pruneExpiredPoints start keys windows).1 := by
  induction keys generalizing windows with
  | nil => exact h
  | cons key keys ih => exact ih (h.adjust key fun w hw => hP.prune w start hw)

theorem EachWindow.write (h : EachWindow P windows) (hnew : P {}) (p : ProjectId)
    (s : SequenceId) {f : SequenceWindow → SequenceWindow} (hf : ∀ w, P w → P (f w)) :
    EachWindow P (writeSequence p s f windows) :=
  (h.ensure hnew _).adjust _ hf

/-- The windows before the prune. -/
theorem EachWindow.windowsBefore {service : WindowService}
    (h : EachWindow P service.sequenceWindows) (hP : Kept P) (p : ProjectId)
    (data : TimeseriesBatch) : EachWindow P (windowsBefore p data service) := by
  have hcreate : ∀ (ids : List SequenceId) {windows : Table String SequenceWindow},
      EachWindow P windows → EachWindow P
        (ids.foldl (fun acc s => KeyedTable.ensure (scopedSequenceKey (effectiveProject p) s) {}
          acc) windows) := by
    intro ids
    induction ids with
    | nil => exact fun hw => hw
    | cons s ids ih => exact fun hw => ih (hw.ensure hP.new _)
  have hsteps : ∀ (ids : List SequenceId) {windows : Table String SequenceWindow},
      EachWindow P windows → EachWindow P
        ((preparedUpdates data.points ids).foldl
          (fun acc prepared => sequenceStep (effectiveProject p) prepared acc) windows) := by
    intro ids
    induction ids with
    | nil => exact fun hw => hw
    | cons s ids ih =>
        exact fun hw => ih (hw.adjust _ fun w hPw =>
          hP.update w _ (prepareUpdate_ascending s (incomingFor s data.points)) hPw)
  exact hsteps _ (hcreate _ h)

/-- The loop for statistics. -/
theorem EachWindow.statisticsLoop (h : EachWindow P windows) (hP : Kept P)
    (project : ProjectId) (ids : List SequenceId)
    (statistics : Table SequenceId SequenceWindowStatistics) (count : Nat) :
    EachWindow P (statisticsLoop project ids windows statistics count).1 := by
  induction ids generalizing windows statistics count with
  | nil => exact h
  | cons s ids ih =>
      rw [HotWindow.statisticsLoop]
      cases hf : windows.find (scopedSequenceKey project s) with
      | none => exact ih h statistics count
      | some w =>
          have hw := h _ w hf
          have hread : P (if w.statisticsValid then w else rebuildStatistics w) := by
            split
            · exact hw
            · exact hP.rebuild w hw
          simp only
          generalize (if w.statisticsValid = true then w else rebuildStatistics w) = v at hread ⊢
          have hstored := h.adjust (scopedSequenceKey project s) (f := fun _ => v)
            fun _ _ => hread
          split
          · exact hstored
          · split
            · exact ih hstored statistics count
            · split
              · exact ih hstored _ _
              · exact hstored

/-! ## One operation, one run -/

/-- **Step.** -/
theorem Kept.call (hP : Kept P) {service : WindowService} (call : ServiceCall)
    (h : EachWindow P service.sequenceWindows) :
    EachWindow P (callStep service call).sequenceWindows := by
  obtain ⟨p, op⟩ := call
  cases op with
  | configure size =>
      show EachWindow P (configureWindowSize p size service).1.sequenceWindows
      unfold configureWindowSize
      by_cases hs : size ≤ 0
      · rw [if_pos hs]
        exact h
      · rw [if_neg hs]
        cases hw : service.watermarks.find (effectiveProject p) with
        | none => simpa only [hw] using h
        | some watermark => simpa only [hw] using h.pruneExpired hP _ _
  | update data override =>
      show EachWindow P (updateWindowIncremental p data override service).1.sequenceWindows
      rcases readBatch_cases p data override with ⟨hacc, _⟩ | ⟨hrej, _⟩
      · rw [update_eq hacc]
        exact (h.windowsBefore hP p data).pruneExpired hP _ _
      · rw [(update_rejected hrej service).1]
        exact h
  | replace s data =>
      show EachWindow P (replaceDerivedSequence p s data service).1.sequenceWindows
      have hwrite := h.write hP.new p s fun w => hP.replace w data
      unfold replaceDerivedSequence
      cases hval : validateReplace p s data with
      | some error => exact h
      | none =>
          cases hw : service.watermarks.find (effectiveProject p) with
          | none => simpa only [hw] using hwrite
          | some watermark => simpa only [hw] using hwrite.pruneExpired hP _ _
  | patch s startTime endTime data =>
      show EachWindow P (patchDerivedSequence p s startTime endTime data service).1.sequenceWindows
      unfold patchDerivedSequence
      cases hval : validatePatch p s startTime endTime data with
      | some error => exact h
      | none =>
          have hle : startTime ≤ endTime := by
            refine not_lt.mp fun hlt => ?_
            by_cases hs : s.isEmpty = true
            · simp [validatePatch, hs] at hval
            · simp [validatePatch, hs, hlt] at hval
          exact h.write hP.new p s fun w => hP.patch w startTime endTime data hle
  | query query => exact h
  | statistics ids =>
      show EachWindow P (queryWindowStatistics p ids service).1.sequenceWindows
      rcases queryWindowStatistics_service p ids service with hsame | hread
      · rw [hsame]
        exact h
      · rw [hread]
        exact h.statisticsLoop hP _ ids KeyedTable.empty 0

/-- **Run.**  What the operations on single windows keep holds of every window a
    run of the service stores. -/
theorem Kept.run (hP : Kept P) (calls : List ServiceCall) :
    EachWindow P (run callStep {} calls).sequenceWindows := by
  have hstep : ∀ (service : WindowService) (call : ServiceCall), True →
      EachWindow P service.sequenceWindows →
        EachWindow P (callStep service call).sequenceWindows :=
    fun _ call _ h => hP.call call h
  have hstart : EachWindow P ({} : WindowService).sequenceWindows := by
    intro key w hw
    cases hw
  exact @run_invariant _ _ callStep (fun service => EachWindow P service.sequenceWindows) _ hstep
    _ hstart calls fun _ _ => trivial

theorem reachable_valid (calls : List ServiceCall) :
    AllValid (Transition.run callStep {} calls).sequenceWindows :=
  kept_valid.run calls

end WindowRuns
