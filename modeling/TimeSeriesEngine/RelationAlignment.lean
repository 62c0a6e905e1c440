import TimeSeriesEngine.RangeAlignment

/-!
# Aligning with relations

`alignWindowData` with a configuration and relations.  Before the grid is laid out each
relation is checked and files a lag for its sources and no lag for its target; a
sequence is then moved by its lag when its points are put in buckets.

* `relationShifts` — the relation loop;
* `alignWithRelations` — the whole call, an extension of `alignWithConfig`
  (`alignWithRelations_nil`);
* `shifts_eq_lagOf` — the lags the loop files, in closed form;
* `shiftAligned_of_success` — what a call has done that reports a success.
-/

namespace RelationAlignment

open TseTypes KeyedTable ConstraintCheck Registry HotWindow SeqAlignment GridSlice RangeAlignment

/-- The source loop of one relation. -/
def sourceShifts (configured : List SequenceId) (target : SequenceId) :
    List RuntimeRelationSource → List SequenceId → Table SequenceId Int →
      Except OperationResult (Table SequenceId Int)
  | [], _, shifts => .ok shifts
  | source :: rest, seen, shifts =>
      let sequenceId := source.sourceSequenceId
      if sequenceId.isEmpty || decide (sequenceId = target) then
        .error (invalidArgument ("relation source sequence is invalid: " ++ sequenceId))
      else if sequenceId ∉ configured then
        .error (invalidArgument
          ("relation source sequence is not in alignment config: " ++ sequenceId))
      else if sequenceId ∈ seen then
        .error (invalidArgument ("relation contains duplicate source sequence: " ++ sequenceId))
      else
        match source.lag with
        | .fixed lag =>
            if (shifts.find sequenceId).any fun found => decide (found ≠ lag) then
              .error (invalidArgument
                ("source sequence has conflicting relation lags: " ++ sequenceId))
            else
              sourceShifts configured target rest (sequenceId :: seen)
                (emplace sequenceId lag shifts)
        | _ =>
            .error
              { code := .notImplemented
                message := "alignment currently supports fixed lag only" }

/-- The loop over the relations. -/
def relationShifts (configured : List SequenceId) :
    List RuntimeRelationConfig → List String → List SequenceId → Table SequenceId Int →
      Except OperationResult (Table SequenceId Int)
  | [], _, _, shifts => .ok shifts
  | relation :: rest, relationIds, targets, shifts =>
      let target := relation.targetSequenceId
      if !relation.enabled then
        .error (failedPrecondition ("alignment relation is not enabled: " ++ relation.relationId))
      else if relation.relationId.isEmpty || target.isEmpty || relation.sources.isEmpty then
        .error (invalidArgument
          "alignment relation must contain an id, target sequence and sources")
      else if relation.relationId ∈ relationIds then
        .error (invalidArgument ("duplicate alignment relation_id: " ++ relation.relationId))
      else if target ∈ targets then
        .error (invalidArgument ("duplicate alignment relation target sequence: " ++ target))
      else if target ∉ configured then
        .error (invalidArgument
          ("relation target sequence is not in alignment config: " ++ target))
      else if (shifts.find target).any fun found => decide (found ≠ 0) then
        .error (invalidArgument ("relation target sequence has a conflicting lag: " ++ target))
      else
        match sourceShifts configured target relation.sources [] (emplace target 0 shifts) with
        | .error operation => .error operation
        | .ok shifts =>
            relationShifts configured rest (relation.relationId :: relationIds)
              (target :: targets) shifts

/-- The configured sequences, or all of the window. -/
def requestedSequences (data : WindowData) (requested : AlignmentConfig) :
    List SequenceAlignmentConfig :=
  if requested.sequences.isEmpty then allSequences data else requested.sequences

/-- `alignWindowData` with a configuration and relations. -/
def alignWithRelations (projectId : ProjectId) (registry : RuntimeConfigRegistry)
    (data : WindowData) (requested : AlignmentConfig) (relations : List RuntimeRelationConfig) :
    AlignmentResult :=
  let failed (operation : OperationResult) : AlignmentResult :=
    { operation := operation
      alignedData := { projectId := projectId }
      projectId := projectId }
  match validateWindowData projectId data with
  | some error => failed (invalidArgument error)
  | none =>
      if data.windowEndTime < data.windowStartTime then
        failed (invalidArgument "alignment window start time must not be after end time")
      else
        let sequences := requestedSequences data requested
        if sequences.isEmpty then
          failed (invalidArgument "alignment sequences must not be empty")
        else
          match sequencesError sequences [] with
          | some error => failed (invalidArgument error)
          | none =>
              match relationShifts (sequences.map SequenceAlignmentConfig.sequenceId) relations
                  [] [] KeyedTable.empty with
              | .error operation => failed operation
              | .ok shifts =>
                  if requested.bucketInterval.any fun interval => decide (interval ≤ 0) then
                    failed (invalidArgument "alignment bucket_interval must be positive")
                  else
                    match requested.bucketInterval.or (inferBucketInterval data sequences) with
                    | none =>
                        failed (invalidArgument
                          "cannot infer bucket_interval; provide a positive interval or at least two distinct timestamps")
                    | some interval =>
                        let grid := gridOf data interval
                        let shift := fun s => (shifts.find s).getD 0
                        let strategies := sequences.map (resolveStrategy projectId registry)
                        match alignSequences grid data shift strategies with
                        | .error error =>
                            failedOnGrid projectId data
                              (unfinishedSamples grid
                                (columnsBefore grid data shift strategies) fun _ => none)
                              error
                        | .ok columns =>
                            match samplesFrom grid columns (List.range grid.bucketCount) with
                            | none =>
                                failedOnGrid projectId data
                                  (unfinishedSamples grid columns (timesSet fun bucket =>
                                    addNonNegativeTimestampOffset grid.windowStart
                                      (bucket * grid.interval)))
                                  "alignment bucket time overflowed timestamp range"
                            | some samples =>
                                if grid.bucketCount ≠ 0 ∧
                                    uint64Max / grid.bucketCount < sequences.length then
                                  failedOnGrid projectId data samples
                                    "alignment result contains too many values"
                                else
                                  let total := grid.bucketCount * sequences.length
                                  let missing := missingValues columns
                                  { operation :=
                                      if missing ≠ 0 then
                                        { code := .partialSuccess
                                          successCount := total - missing
                                          failedCount := missing
                                          message :=
                                            "alignment completed with missing values after fill" }
                                      else okResult total "window data aligned"
                                    alignedData :=
                                      { windowStartTime := data.windowStartTime
                                        windowEndTime := data.windowEndTime
                                        samples := samples
                                        projectId := projectId }
                                    projectId := projectId }

/-- Without relations the call is that of a configuration, as long as the values can be
    counted. -/
theorem alignWithRelations_nil {projectId : ProjectId} {registry : RuntimeConfigRegistry}
    {data : WindowData} {requested : AlignmentConfig}
    (hcount : ∀ interval, ¬ ((gridOf data interval).bucketCount ≠ 0 ∧
      uint64Max / (gridOf data interval).bucketCount < (requestedSequences data requested).length)) :
    alignWithRelations projectId registry data requested [] =
      alignWithConfig projectId registry data requested := by
  have hsequences : requestedSequences data requested =
      if requested.sequences.isEmpty then
        data.sequenceValues.keys.map fun sequenceId => { sequenceId := sequenceId }
      else requested.sequences := rfl
  simp only [alignWithRelations, alignWithConfig, relationShifts, if_neg (hcount _)]
  rw [hsequences]
  rfl

/-! ## The lags -/

/-- The lag, if it is a fixed one. -/
def fixedLag : RelationLagSpec → Option Int
  | .fixed lag => some lag
  | _ => none

/-- The lag a list of sources gives a sequence, if it names it. -/
def lagAmong (sources : List RuntimeRelationSource) (s : SequenceId) : Int :=
  ((sources.find? fun source => source.sourceSequenceId = s).bind fun source =>
    fixedLag source.lag).getD 0

/-- The lag of a sequence: that of the relation it is a source of. -/
def lagOf (relations : List RuntimeRelationConfig) (s : SequenceId) : Int :=
  lagAmong (relations.flatMap RuntimeRelationConfig.sources) s

/-- The table of the loop against the sources it has seen. -/
structure FilesLags (sources : List RuntimeRelationSource) (shifts : Table SequenceId Int) :
    Prop where
  lag : ∀ s, (shifts.find s).getD 0 = lagAmong sources s
  filed : ∀ source ∈ sources, (shifts.find source.sourceSequenceId).isSome

/-- What a table holds after `emplace`: the first value stays. -/
theorem find_emplace (key s : String) (value : Int) (table : Table String Int) :
    (emplace key value table).find s =
      if s = key then some ((table.find key).getD value) else table.find s := by
  rw [emplace]
  cases hfind : table.find key with
  | none =>
      show (put key value table).find s = _
      rw [find_put]
      rfl
  | some found =>
      show table.find s = _
      split
      · rename_i h
        rw [h, hfind]
        rfl
      · rfl

/-- The lag of a sequence is the first one given. -/
theorem lagAmong_append (earlier later : List RuntimeRelationSource) (s : SequenceId) :
    lagAmong (earlier ++ later) s =
      if ∃ source ∈ earlier, source.sourceSequenceId = s then lagAmong earlier s
      else lagAmong later s := by
  rw [lagAmong, lagAmong, lagAmong, List.find?_append]
  split
  · rename_i h
    obtain ⟨source, hsource, hid⟩ := h
    have hsome : (earlier.find? fun source => decide (source.sourceSequenceId = s)).isSome := by
      rw [List.find?_isSome]
      exact ⟨source, hsource, decide_eq_true hid⟩
    obtain ⟨found, hfound⟩ := Option.isSome_iff_exists.mp hsome
    rw [hfound, Option.some_or]
  · rename_i h
    have hnone : (earlier.find? fun source => decide (source.sourceSequenceId = s)) = none := by
      rw [List.find?_eq_none]
      intro source hsource hid
      exact h ⟨source, hsource, of_decide_eq_true hid⟩
    rw [hnone, Option.none_or]

/-- A target files no lag, unless there is one. -/
theorem FilesLags.target {sources : List RuntimeRelationSource} {shifts : Table SequenceId Int}
    (h : FilesLags sources shifts) (target : SequenceId) :
    FilesLags sources (emplace target 0 shifts) := by
  refine ⟨fun s => ?_, fun source hsource => ?_⟩
  · rw [find_emplace, ← h.lag s]
    split
    · rename_i hs
      rw [hs]
      rfl
    · rfl
  · rw [find_emplace]
    split
    · rfl
    · exact h.filed source hsource

/-- A source files its lag, or has the same one already. -/
theorem FilesLags.source {sources : List RuntimeRelationSource} {shifts : Table SequenceId Int}
    (h : FilesLags sources shifts) {source : RuntimeRelationSource} {lag : Int}
    (hlag : source.lag = .fixed lag)
    (hsame : ∀ found, shifts.find source.sourceSequenceId = some found → found = lag) :
    FilesLags (sources ++ [source]) (emplace source.sourceSequenceId lag shifts) := by
  have hvalue : (shifts.find source.sourceSequenceId).getD lag = lag := by
    cases hfind : shifts.find source.sourceSequenceId with
    | none => rfl
    | some found => exact hsame found hfind
  have hself : lagAmong [source] source.sourceSequenceId = lag := by
    rw [lagAmong, List.find?_cons_of_pos (by simp), Option.bind_some, hlag]
    rfl
  refine ⟨fun s => ?_, fun other hother => ?_⟩
  · rw [find_emplace, lagAmong_append]
    by_cases hs : s = source.sourceSequenceId
    · rw [if_pos hs, hvalue, hs]
      split
      · -- named before: filed before
        rename_i hnamed
        obtain ⟨other, hother, hid⟩ := hnamed
        have hfiled := h.filed other hother
        rw [hid] at hfiled
        obtain ⟨found, hfound⟩ := Option.isSome_iff_exists.mp hfiled
        rw [← h.lag, hfound, hsame found hfound]
      · exact hself.symm
    · rw [if_neg hs, h.lag]
      split
      · rfl
      · rename_i hnamed
        have hnone : ∀ list : List RuntimeRelationSource,
            (∀ other ∈ list, other.sourceSequenceId ≠ s) → lagAmong list s = 0 := by
          intro list hlist
          rw [lagAmong, List.find?_eq_none.mpr fun other hother hid =>
            hlist other hother (of_decide_eq_true hid)]
          rfl
        rw [hnone sources fun other hother hid => hnamed ⟨other, hother, hid⟩, hnone]
        intro other hother
        rw [List.mem_singleton.mp hother]
        exact Ne.symm hs
  · rw [find_emplace]
    rcases List.mem_append.mp hother with hold | hnew
    · split
      · rfl
      · exact h.filed other hold
    · rw [List.mem_singleton.mp hnew, if_pos rfl]
      rfl

/-- The sources of a relation file their lags. -/
theorem sourceShifts_files {configured : List SequenceId} {target : SequenceId}
    {sources done : List RuntimeRelationSource} {seen : List SequenceId}
    {shifts out : Table SequenceId Int} (h : FilesLags done shifts)
    (hout : sourceShifts configured target sources seen shifts = .ok out) :
    FilesLags (done ++ sources) out := by
  induction sources generalizing done seen shifts with
  | nil =>
      cases hout
      rw [List.append_nil]
      exact h
  | cons source rest ih =>
      rw [sourceShifts] at hout
      split at hout
      · cases hout
      split at hout
      · cases hout
      split at hout
      · cases hout
      split at hout
      · rename_i lag hlag
        split at hout
        · cases hout
        · rename_i hconflict
          have hsame : ∀ found, shifts.find source.sourceSequenceId = some found → found = lag := by
            intro found hfound
            by_contra hne
            refine hconflict ?_
            rw [hfound]
            exact decide_eq_true hne
          have hrest := ih (h.source hlag hsame) hout
          rw [List.append_assoc] at hrest
          exact hrest
      · cases hout

/-- All relations file their lags. -/
theorem relationShifts_files {configured : List SequenceId}
    {relations : List RuntimeRelationConfig} {done : List RuntimeRelationSource}
    {relationIds : List String} {targets : List SequenceId} {shifts out : Table SequenceId Int}
    (h : FilesLags done shifts)
    (hout : relationShifts configured relations relationIds targets shifts = .ok out) :
    FilesLags (done ++ relations.flatMap RuntimeRelationConfig.sources) out := by
  induction relations generalizing done relationIds targets shifts with
  | nil =>
      cases hout
      rw [List.flatMap_nil, List.append_nil]
      exact h
  | cons relation rest ih =>
      rw [relationShifts] at hout
      split at hout
      · cases hout
      split at hout
      · cases hout
      split at hout
      · cases hout
      split at hout
      · cases hout
      split at hout
      · cases hout
      split at hout
      · cases hout
      split at hout
      · cases hout
      · rename_i shifts' hsources
        have hrest := ih (sourceShifts_files (h.target relation.targetSequenceId) hsources) hout
        rw [List.append_assoc] at hrest
        exact hrest

/-- The lags the loop files are those of the relations. -/
theorem shifts_eq_lagOf {configured : List SequenceId} {relations : List RuntimeRelationConfig}
    {shifts : Table SequenceId Int}
    (h : relationShifts configured relations [] [] KeyedTable.empty = .ok shifts) (s : SequenceId) :
    (shifts.find s).getD 0 = lagOf relations s :=
  (@relationShifts_files configured relations [] [] [] KeyedTable.empty shifts
    ⟨fun _ => rfl, fun _ hsource => absurd hsource List.not_mem_nil⟩ h).lag s

/-! ## A successful call -/

/-- What a call has done that reports a success. -/
structure ShiftAligned (projectId : ProjectId) (registry : RuntimeConfigRegistry)
    (data : WindowData) (requested : AlignmentConfig) (relations : List RuntimeRelationConfig)
    (interval : Int) (columns : List (SequenceId × BucketValues)) (result : AlignmentResult) :
    Prop where
  valid : validateWindowData projectId data = none
  order : data.windowStartTime ≤ data.windowEndTime
  distinct : sequencesError (requestedSequences data requested) [] = none
  positive : (requested.bucketInterval.any fun interval => decide (interval ≤ 0)) = false
  asked : requested.bucketInterval.or
    (inferBucketInterval data (requestedSequences data requested)) = some interval
  aligned : alignSequences (gridOf data interval) data (lagOf relations)
    ((requestedSequences data requested).map (resolveStrategy projectId registry)) = .ok columns
  samples : result.alignedData.samples =
    (List.range (gridOf data interval).bucketCount).map (sampleAt (gridOf data interval) columns)
  succeeded : result.operation.successCount =
    (gridOf data interval).bucketCount * (requestedSequences data requested).length -
      missingValues columns
  failed : result.operation.failedCount = missingValues columns

/-- No relation is rejected with a code of success. -/
theorem sourceShifts_error {configured : List SequenceId} {target : SequenceId}
    {sources : List RuntimeRelationSource} {seen : List SequenceId}
    {shifts : Table SequenceId Int} {operation : OperationResult}
    (h : sourceShifts configured target sources seen shifts = .error operation) :
    isSuccessful operation.code = false := by
  induction sources generalizing seen shifts with
  | nil => cases h
  | cons source rest ih =>
      rw [sourceShifts] at h
      split at h
      · cases h
        rfl
      split at h
      · cases h
        rfl
      split at h
      · cases h
        rfl
      split at h
      · split at h
        · cases h
          rfl
        · exact ih h
      · cases h
        rfl

/-- An error of the relations is not a success. -/
theorem relationShifts_error {configured : List SequenceId}
    {relations : List RuntimeRelationConfig} {relationIds : List String}
    {targets : List SequenceId} {shifts : Table SequenceId Int} {operation : OperationResult}
    (h : relationShifts configured relations relationIds targets shifts = .error operation) :
    isSuccessful operation.code = false := by
  induction relations generalizing relationIds targets shifts with
  | nil => cases h
  | cons relation rest ih =>
      rw [relationShifts] at h
      split at h
      · cases h
        rfl
      split at h
      · cases h
        rfl
      split at h
      · cases h
        rfl
      split at h
      · cases h
        rfl
      split at h
      · cases h
        rfl
      split at h
      · cases h
        rfl
      split at h
      · rename_i hsources
        cases h
        exact sourceShifts_error hsources
      · exact ih h

/-- A call that succeeds has aligned the shifted columns. -/
theorem shiftAligned_of_success {projectId : ProjectId} {registry : RuntimeConfigRegistry}
    {data : WindowData} {requested : AlignmentConfig} {relations : List RuntimeRelationConfig}
    (h : isSuccessful (alignWithRelations projectId registry data requested
      relations).operation.code = true) :
    ∃ interval columns, ShiftAligned projectId registry data requested relations interval columns
      (alignWithRelations projectId registry data requested relations) := by
  generalize hresult : alignWithRelations projectId registry data requested relations = result at h ⊢
  simp only [alignWithRelations] at hresult
  split at hresult
  · rw [← hresult] at h
    cases h
  rename_i hvalid
  split at hresult
  · rw [← hresult] at h
    cases h
  rename_i horder
  split at hresult
  · rw [← hresult] at h
    cases h
  split at hresult
  · rw [← hresult] at h
    cases h
  rename_i hdistinct
  split at hresult
  · rename_i hshifts
    rw [← hresult, relationShifts_error hshifts] at h
    cases h
  rename_i shifts hshifts
  split at hresult
  · rw [← hresult] at h
    cases h
  rename_i hpositive
  split at hresult
  · rw [← hresult] at h
    cases h
  rename_i interval hasked
  split at hresult
  · rw [← hresult] at h
    cases h
  rename_i columns hcolumns
  split at hresult
  · rw [← hresult] at h
    cases h
  rename_i samples hsamples
  split at hresult
  · rw [← hresult] at h
    cases h
  have hlags : (fun s => (shifts.find s).getD 0) = lagOf relations :=
    funext (shifts_eq_lagOf hshifts)
  rw [hlags] at hcolumns
  obtain ⟨-, hsamples⟩ := samplesFrom_eq_some.mp hsamples
  refine ⟨interval, columns, hvalid, not_lt.mp horder, hdistinct, Bool.eq_false_iff.mpr hpositive,
    hasked, hcolumns, ?_, ?_, ?_⟩
  · rw [← hresult]
    exact hsamples
  · rw [← hresult]
    by_cases hmissing : missingValues columns = 0
    · simp only [hmissing, ne_eq, not_true_eq_false, if_false]
      rfl
    · simp only [ne_eq, hmissing, not_false_eq_true, if_true]
  · rw [← hresult]
    by_cases hmissing : missingValues columns = 0
    · simp only [hmissing, ne_eq, not_true_eq_false, if_false]
      rfl
    · simp only [ne_eq, hmissing, not_false_eq_true, if_true]

end RelationAlignment
