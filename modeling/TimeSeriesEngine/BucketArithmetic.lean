import TimeSeriesEngine.Library.MachineIntegers
import TimeSeriesEngine.AlignmentReference

/-!
# The bucket grid in machine arithmetic

The arithmetic of `alignWindowData` on 64-bit values: times are signed and an operation
on them that overflows is undefined (`none`), offsets and counts are unsigned and wrap.

* `addTimestamp64`, `addNonNegativeTimestampOffset64`, `bucketCount64`, `bucketIndex64`,
  `observeGap64` — the operations of the source;
* `alignWithRelations64` — the whole call on them;
* `alignWithRelations64_eq` — on 64-bit times it is defined and is the exact call.
-/

namespace BucketArithmetic

open TseTypes KeyedTable ConstraintCheck Registry HotWindow SeqAlignment GapFilling GridSlice
open RangeAlignment RelationAlignment AlignmentReference MachineIntegers

/-! ## The operations -/

/-- `addTimestamp`. -/
def addTimestamp64 (value offset : Int) : Option (Option Timestamp) :=
  if 0 < offset then
    (signedSub 64 int64Max offset).bind fun limit =>
      if limit < value then some none else (signedAdd 64 value offset).map some
  else if offset < 0 then
    (signedSub 64 int64Min offset).bind fun limit =>
      if value < limit then some none else (signedAdd 64 value offset).map some
  else (signedAdd 64 value offset).map some

/-- `addNonNegativeTimestampOffset`. -/
def addNonNegativeTimestampOffset64 (value : Timestamp) (offset : BitVec 64) :
    Option (Option Timestamp) :=
  let maximum := BitVec.ofInt 64 int64Max
  if 0 ≤ value then
    if maximum - BitVec.ofInt 64 value < offset then some none
    else (signedAdd 64 value offset.toInt).map some
  else
    -- the magnitude, without negating the smallest timestamp
    (signedAdd 64 value 1).bind fun next =>
      (signedNeg 64 next).bind fun negated =>
        let magnitude := BitVec.ofInt 64 negated + 1
        if offset < magnitude then
          let remaining := magnitude - offset
          if remaining = maximum + 1 then some (some int64Min)
          else (signedNeg 64 remaining.toInt).map some
        else
          let positive := offset - magnitude
          if maximum < positive then some none else some (some positive.toInt)

/-- `observeGap`. -/
def observeGap64 (smallest : Option (BitVec 64)) (previous current : Timestamp) :
    Option (BitVec 64) :=
  let gap := BitVec.ofInt 64 current - BitVec.ofInt 64 previous
  if gap = 0 ∨ BitVec.ofInt 64 int64Max < gap then smallest
  else
    match smallest with
    | none => some gap
    | some old => if gap < old then some gap else some old

/-- The gaps between neighbouring times, the smallest positive one so far. -/
def observeGaps64 : List Timestamp → Option (BitVec 64) → Option (BitVec 64)
  | previous :: current :: rest, smallest =>
      observeGaps64 (current :: rest) (observeGap64 smallest previous current)
  | _, smallest => smallest

/-- `inferBucketInterval`. -/
def inferBucketInterval64 (data : WindowData) (sequences : List SequenceAlignmentConfig) :
    Option Int :=
  (sequences.foldl
    (fun smallest sequence =>
      match data.sequenceValues.find sequence.sequenceId with
      | none => smallest
      | some points =>
          if points.length < 2 then smallest else observeGaps64 (gapTimes points) smallest)
    none).map BitVec.toInt

/-- Whole buckets plus one for the rest. -/
def bucketCount64 (windowStart windowEnd : Timestamp) (interval : Int) : BitVec 64 :=
  let span := BitVec.ofInt 64 windowEnd - BitVec.ofInt 64 windowStart
  span / BitVec.ofInt 64 interval + if span % BitVec.ofInt 64 interval ≠ 0 then 1 else 0

/-- The bucket of a time inside the window. -/
def bucketIndex64 (windowStart time : Timestamp) (interval : Int) : BitVec 64 :=
  (BitVec.ofInt 64 time - BitVec.ofInt 64 windowStart) / BitVec.ofInt 64 interval

/-- The time of a bucket. -/
def bucketTime64 (windowStart : Timestamp) (interval : Int) (bucket : Nat) :
    Option (Option Timestamp) :=
  addNonNegativeTimestampOffset64 windowStart
    (BitVec.ofNat 64 bucket * BitVec.ofInt 64 interval)

/-- The buckets of a window. -/
def gridOf64 (data : WindowData) (interval : Int) : Grid where
  windowStart := data.windowStartTime
  windowEnd := data.windowEndTime
  interval := interval
  bucketCount := (bucketCount64 data.windowStartTime data.windowEndTime interval).toNat

/-! ## The call -/

/-- The loop over the points of one sequence. -/
def addPoints64 (grid : Grid) (sequenceId : SequenceId) (aggregation : BucketAggregation)
    (shift : Int) :
    List RawTimeseriesPoint → (Nat → Option BucketAccumulator) →
      Option (Except String (Nat → Option BucketAccumulator))
  | [], buckets => some (.ok buckets)
  | point :: points, buckets =>
      if point.sequenceId != sequenceId then
        some (.error "window point sequence_id does not match its map key")
      else
        match addTimestamp64 point.time shift with
        | none => none
        | some none => some (.error "relation lag overflowed timestamp range")
        | some (some effectiveTime) =>
            if effectiveTime < grid.windowStart ∨ grid.windowEnd ≤ effectiveTime then
              addPoints64 grid sequenceId aggregation shift points buckets
            else
              let index := (bucketIndex64 grid.windowStart effectiveTime grid.interval).toNat
              if grid.bucketCount ≤ index then
                addPoints64 grid sequenceId aggregation shift points buckets
              else
                match addToBucket (buckets index) point aggregation with
                | .error error => some (.error error)
                | .ok bucket =>
                    addPoints64 grid sequenceId aggregation shift points
                      (Function.update buckets index (some bucket))

/-- `alignSequence`. -/
def alignSequence64 (grid : Grid) (data : WindowData) (shift : SequenceId → Int)
    (sequenceId : SequenceId) (aggregation : BucketAggregation) (fillMethod : GapFillMethod) :
    Option (Except String BucketValues) :=
  (addPoints64 grid sequenceId aggregation (shift sequenceId)
    ((data.sequenceValues.find sequenceId).getD []) fun _ => none).map fun
    | .error error => .error error
    | .ok buckets =>
        fillValues
          ((List.range grid.bucketCount).map fun index =>
            (buckets index).map (finishBucket aggregation))
          fillMethod

/-- Every configured sequence; the first failing one decides. -/
def alignSequences64 (grid : Grid) (data : WindowData) (shift : SequenceId → Int) :
    List (SequenceId × BucketAggregation × GapFillMethod) →
      Option (Except String (List (SequenceId × BucketValues)))
  | [] => some (.ok [])
  | (sequenceId, aggregation, fillMethod) :: rest =>
      match alignSequence64 grid data shift sequenceId aggregation fillMethod with
      | none => none
      | some (.error error) => some (.error error)
      | some (.ok values) =>
          (alignSequences64 grid data shift rest).map fun
            | .error error => .error error
            | .ok columns => .ok ((sequenceId, values) :: columns)

/-- The columns in front of the first sequence that fails. -/
def columnsBefore64 (grid : Grid) (data : WindowData) (shift : SequenceId → Int) :
    List (SequenceId × BucketAggregation × GapFillMethod) →
      Option (List (SequenceId × BucketValues))
  | [] => some []
  | (sequenceId, aggregation, fillMethod) :: rest =>
      match alignSequence64 grid data shift sequenceId aggregation fillMethod with
      | none => none
      | some (.error _) => some []
      | some (.ok values) =>
          (columnsBefore64 grid data shift rest).map fun columns => (sequenceId, values) :: columns

/-- The samples of the buckets. -/
def samplesFrom64 (grid : Grid) (columns : List (SequenceId × BucketValues)) :
    List Nat → Option (Option (List AlignedSample))
  | [] => some (some [])
  | bucket :: buckets =>
      match bucketTime64 grid.windowStart grid.interval bucket with
      | none => none
      | some none => some none
      | some (some time) =>
          (samplesFrom64 grid columns buckets).map fun samples =>
            samples.map fun samples =>
              { time := time, values := sampleValues columns bucket } :: samples

/-- `alignWindowData` with a configuration and relations. -/
def alignWithRelations64 (projectId : ProjectId) (registry : RuntimeConfigRegistry)
    (data : WindowData) (requested : AlignmentConfig) (relations : List RuntimeRelationConfig) :
    Option AlignmentResult :=
  let failed (operation : OperationResult) : AlignmentResult :=
    { operation := operation
      alignedData := { projectId := projectId }
      projectId := projectId }
  match validateWindowData projectId data with
  | some error => some (failed (invalidArgument error))
  | none =>
      if data.windowEndTime < data.windowStartTime then
        some (failed (invalidArgument "alignment window start time must not be after end time"))
      else
        let sequences := requestedSequences data requested
        if sequences.isEmpty then
          some (failed (invalidArgument "alignment sequences must not be empty"))
        else
          match sequencesError sequences [] with
          | some error => some (failed (invalidArgument error))
          | none =>
              match relationShifts (sequences.map SequenceAlignmentConfig.sequenceId) relations
                  [] [] KeyedTable.empty with
              | .error operation => some (failed operation)
              | .ok shifts =>
                  if requested.bucketInterval.any fun interval => decide (interval ≤ 0) then
                    some (failed (invalidArgument "alignment bucket_interval must be positive"))
                  else
                    match requested.bucketInterval.or (inferBucketInterval64 data sequences) with
                    | none =>
                        some (failed (invalidArgument
                          "cannot infer bucket_interval; provide a positive interval or at least two distinct timestamps"))
                    | some interval =>
                        let grid := gridOf64 data interval
                        if uint64Max < grid.bucketCount then
                          some (failed (invalidArgument
                            "alignment window contains too many buckets"))
                        else
                          let shift := fun s => (shifts.find s).getD 0
                          let strategies := sequences.map (resolveStrategy projectId registry)
                          match alignSequences64 grid data shift strategies with
                          | none => none
                          | some (.error error) =>
                              (columnsBefore64 grid data shift strategies).map fun columns =>
                                failedOnGrid projectId data
                                  (unfinishedSamples grid columns fun _ => none) error
                          | some (.ok columns) =>
                              match samplesFrom64 grid columns (List.range grid.bucketCount) with
                              | none => none
                              | some none =>
                                  some (failedOnGrid projectId data
                                    (unfinishedSamples grid columns (timesSet fun bucket =>
                                      (bucketTime64 grid.windowStart grid.interval bucket).join))
                                    "alignment bucket time overflowed timestamp range")
                              | some (some samples) =>
                                  if grid.bucketCount ≠ 0 ∧
                                      uint64Max / grid.bucketCount < sequences.length then
                                    some (failedOnGrid projectId data samples
                                      "alignment result contains too many values")
                                  else
                                    let total := BitVec.ofNat 64 grid.bucketCount *
                                      BitVec.ofNat 64 sequences.length
                                    let missing := BitVec.ofNat 64 (missingValues columns)
                                    some
                                      { operation :=
                                          if missing ≠ 0 then
                                            { code := .partialSuccess
                                              successCount := (total - missing).toNat
                                              failedCount := missing.toNat
                                              message :=
                                                "alignment completed with missing values after fill" }
                                          else okResult total.toNat "window data aligned"
                                        alignedData :=
                                          { windowStartTime := data.windowStartTime
                                            windowEndTime := data.windowEndTime
                                            samples := samples
                                            projectId := projectId }
                                        projectId := projectId }

/-! ## The exact values -/

theorem signed_iff {x : Int} : Signed 64 x ↔ int64Min ≤ x ∧ x ≤ int64Max := by
  have hpow : (2 : Int) ^ (64 - 1) = 9223372036854775808 := by norm_num
  rw [Signed, hpow]
  unfold int64Min int64Max
  omega

theorem int64Max_toNat : (BitVec.ofInt 64 int64Max).toNat = 9223372036854775807 := by decide

/-- The saturating sum of two times, as 64-bit operations compute it. -/
theorem addTimestamp64_eq {value offset : Int} (hvalue : Signed 64 value)
    (hoffset : Signed 64 offset) :
    addTimestamp64 value offset = some (addTimestamp value offset) := by
  rw [signed_iff] at hvalue hoffset
  unfold addTimestamp64 addTimestamp signedSub signedAdd
  unfold int64Min int64Max at *
  split
  · rw [bind_checked (signed_iff.mpr (by unfold int64Min int64Max; omega))]
    split
    · rw [if_pos (by omega)]
    · rw [checked_of (signed_iff.mpr (by unfold int64Min int64Max; omega)), if_neg (by omega)]
      rfl
  split
  · rw [bind_checked (signed_iff.mpr (by unfold int64Min int64Max; omega))]
    split
    · rw [if_pos (by omega)]
    · rw [checked_of (signed_iff.mpr (by unfold int64Min int64Max; omega)), if_neg (by omega)]
      rfl
  · rw [checked_of (signed_iff.mpr (by unfold int64Min int64Max; omega)), if_neg (by omega)]
    rfl

/-- The unsigned magnitude of a negative time. -/
theorem magnitude_toNat {value : Timestamp} (hvalue : Signed 64 value) (hneg : value < 0) :
    (BitVec.ofInt 64 (-(value + 1)) + 1).toNat = (-value).toNat := by
  rw [signed_iff] at hvalue
  unfold int64Min int64Max at hvalue
  dsimp only [Timestamp] at *
  have hless : (BitVec.ofInt 64 (-(value + 1))).toNat = (-(value + 1)).toNat :=
    toNat_ofInt_of_nonneg (by omega) (by omega)
  have hone : (1 : BitVec 64).toNat = 1 := rfl
  rw [BitVec.toNat_add_of_lt (by rw [hless, hone]; omega), hless, hone]
  omega

/-- A time plus an offset, as 64-bit operations compute it. -/
theorem addNonNegativeTimestampOffset64_eq {value : Timestamp} (hvalue : Signed 64 value)
    (offset : BitVec 64) :
    addNonNegativeTimestampOffset64 value offset =
      some (addNonNegativeTimestampOffset value offset.toNat) := by
  have hrange := signed_iff.mp hvalue
  have hmax := int64Max_toNat
  unfold int64Min int64Max at hrange
  have hsmall : ∀ x : BitVec 64, x.toNat ≤ 9223372036854775807 → x.toInt = x.toNat :=
    fun x hx => toInt_of_lt (by decide) (Nat.lt_succ_of_le hx)
  unfold addNonNegativeTimestampOffset64 addNonNegativeTimestampOffset signedAdd signedNeg
  dsimp only [Timestamp] at *
  split
  · rename_i hpos
    have hroom : (BitVec.ofInt 64 int64Max - BitVec.ofInt 64 value).toNat =
        (int64Max - value).toNat :=
      toNat_ofInt_sub hrange.2 (by unfold int64Max; omega)
    simp only [BitVec.lt_def, hroom]
    unfold int64Max
    split
    · rw [if_pos (by omega)]
    · rw [hsmall offset (by omega), checked_of (signed_iff.mpr (by
        unfold int64Min int64Max; omega)), if_neg (by omega)]
      rfl
  · rename_i hneg
    have hmagnitude := magnitude_toNat hvalue (by dsimp only [Timestamp]; omega)
    rw [bind_checked (signed_iff.mpr (by unfold int64Min int64Max; omega)),
      bind_checked (signed_iff.mpr (by unfold int64Min int64Max; omega))]
    generalize BitVec.ofInt 64 (-(value + 1)) + 1 = magnitude at hmagnitude ⊢
    simp only [BitVec.lt_def]
    split
    · -- the sum stays negative
      rename_i hless
      have hremaining : (magnitude - offset).toNat = magnitude.toNat - offset.toNat :=
        BitVec.toNat_sub_of_le (BitVec.le_def.mpr (Nat.le_of_lt hless))
      have hlimit : (BitVec.ofInt 64 int64Max + 1).toNat = 9223372036854775808 := by decide
      have hfits : ¬ int64Max < value + (offset.toNat : Int) := by
        unfold int64Max
        omega
      simp only [if_neg hfits]
      split
      · rename_i hall
        have hnat := congrArg BitVec.toNat hall
        rw [hremaining, hlimit] at hnat
        unfold int64Min
        exact congrArg (fun t => some (some t)) (by omega)
      · rename_i hnot
        have hne : (magnitude - offset).toNat ≠ 9223372036854775808 := fun e =>
          hnot (BitVec.eq_of_toNat_eq (e.trans hlimit.symm))
        rw [hsmall _ (by omega), checked_of (signed_iff.mpr (by
          unfold int64Min int64Max; omega)), hremaining]
        exact congrArg (fun t => some (some t)) (by omega)
    · -- the sum is not negative
      rename_i hnot
      have hpositive : (offset - magnitude).toNat = offset.toNat - magnitude.toNat :=
        BitVec.toNat_sub_of_le (BitVec.le_def.mpr (Nat.le_of_not_lt hnot))
      rw [hmax, hpositive]
      unfold int64Max
      split
      · rw [if_pos (by omega)]
      · rw [if_neg (by omega), hsmall _ (by omega), hpositive]
        exact congrArg (fun t => some (some t)) (by omega)

/-! ## The interval -/

/-- A smallest gap that was observed. -/
def Observed (smallest : Option Int) : Prop := ∀ gap ∈ smallest, (0 : Int) < gap ∧ gap ≤ int64Max

/-- One gap. -/
theorem observeGap64_eq {previous current : Timestamp} (hprevious : Signed 64 previous)
    (hcurrent : Signed 64 current) (hle : previous ≤ current) {smallest : Option Int}
    (h : Observed smallest) :
    observeGap64 (smallest.map (BitVec.ofInt 64)) previous current =
        (observeGap smallest previous current).map (BitVec.ofInt 64) ∧
      Observed (observeGap smallest previous current) := by
  have hgap : (BitVec.ofInt 64 current - BitVec.ofInt 64 previous).toNat =
      (current - previous).toNat := toNat_ofInt_sub hle (hprevious.sub_lt (by decide) hcurrent)
  have hmax := int64Max_toNat
  have hnonneg : (0 : Int) ≤ current - previous := Int.sub_nonneg_of_le hle
  have hskip : (BitVec.ofInt 64 current - BitVec.ofInt 64 previous = 0 ∨
      BitVec.ofInt 64 int64Max < BitVec.ofInt 64 current - BitVec.ofInt 64 previous) ↔
      (current - previous = 0 ∨ int64Max < current - previous) := by
    have hzero : (BitVec.ofInt 64 current - BitVec.ofInt 64 previous = 0) ↔
        (BitVec.ofInt 64 current - BitVec.ofInt 64 previous).toNat = 0 :=
      ⟨fun e => by rw [e]; rfl, fun e => BitVec.eq_of_toNat_eq e⟩
    rw [hzero, BitVec.lt_def, hgap, hmax]
    unfold int64Max
    dsimp only [Timestamp] at *
    omega
  have hcast : BitVec.ofInt 64 (current - previous) =
      BitVec.ofInt 64 current - BitVec.ofInt 64 previous := ofInt_sub _ _
  unfold observeGap64 observeGap
  by_cases hout : current - previous = 0 ∨ int64Max < current - previous
  · simp only [if_pos hout, if_pos (hskip.mpr hout)]
    exact ⟨trivial, h⟩
  · obtain ⟨hne, hfits⟩ := not_or.mp hout
    have hpos : (0 : Int) < current - previous ∧ current - previous ≤ int64Max :=
      ⟨lt_of_le_of_ne hnonneg (Ne.symm hne), not_lt.mp hfits⟩
    simp only [if_neg hout, if_neg fun e => hout (hskip.mp e)]
    cases smallest with
    | none =>
        refine ⟨congrArg some hcast.symm, fun gap hmem => ?_⟩
        cases hmem
        exact hpos
    | some old =>
        have hold := h old rfl
        have holdNat : (BitVec.ofInt 64 old).toNat = old.toNat :=
          toNat_ofInt_of_nonneg (le_of_lt hold.1) (by
            have hup := hold.2
            unfold int64Max at hup
            omega)
        have hiff : BitVec.ofInt 64 current - BitVec.ofInt 64 previous < BitVec.ofInt 64 old ↔
            current - previous < old := by
          rw [BitVec.lt_def, hgap, holdNat]
          have hup := hold.1
          dsimp only [Timestamp] at *
          omega
        simp only [Option.map_some, hiff]
        split
        · refine ⟨congrArg some hcast.symm, fun gap hmem => ?_⟩
          cases hmem
          exact hpos
        · exact ⟨rfl, h⟩

/-- All gaps of a sequence. -/
theorem observeGaps64_eq {times : List Timestamp} (htimes : ∀ t ∈ times, Signed 64 t)
    (hsorted : timesSorted times = true) {smallest : Option Int} (h : Observed smallest) :
    observeGaps64 times (smallest.map (BitVec.ofInt 64)) =
        (observeGaps times smallest).map (BitVec.ofInt 64) ∧
      Observed (observeGaps times smallest) := by
  induction times generalizing smallest with
  | nil => exact ⟨rfl, h⟩
  | cons previous rest ih =>
      cases rest with
      | nil => exact ⟨rfl, h⟩
      | cons current rest =>
          rw [timesSorted] at hsorted
          split at hsorted
          · cases hsorted
          · rename_i hle
            obtain ⟨heq, hobserved⟩ := observeGap64_eq (htimes previous (by simp))
              (htimes current (by simp)) (not_lt.mp hle) h
            rw [observeGaps64, observeGaps, heq]
            exact ih (fun t ht => htimes t (List.mem_cons_of_mem _ ht)) hsorted hobserved

/-- Every time of the window is a 64-bit value. -/
structure Data64 (data : WindowData) : Prop where
  start : Signed 64 data.windowStartTime
  finish : Signed 64 data.windowEndTime
  points : ∀ s xs, data.sequenceValues.find s = some xs → ∀ point ∈ xs, Signed 64 point.time

/-- The times of a sequence are 64-bit numbers. -/
theorem Data64.pointsOf {data : WindowData} (h : Data64 data) (s : SequenceId) :
    ∀ point ∈ (data.sequenceValues.find s).getD [], Signed 64 point.time := by
  intro point hpoint
  cases hfind : data.sequenceValues.find s with
  | none =>
      rw [hfind] at hpoint
      cases hpoint
  | some points =>
      rw [hfind] at hpoint
      exact h.points s points hfind point hpoint

theorem gapTimes_signed {points : List RawTimeseriesPoint}
    (h : ∀ point ∈ points, Signed 64 point.time) : ∀ t ∈ gapTimes points, Signed 64 t := by
  have hmap : ∀ t ∈ points.map RawTimeseriesPoint.time, Signed 64 t := by
    intro t ht
    obtain ⟨point, hpoint, rfl⟩ := List.mem_map.mp ht
    exact h point hpoint
  intro t ht
  rw [gapTimes] at ht
  split at ht
  · exact hmap t ht
  · exact hmap t (OrderedSeries.mem_of_mem_sortUnique _ ht)

/-- The width inferred with 64-bit operations is the exact one. -/
theorem inferBucketInterval64_eq {data : WindowData} (h : Data64 data)
    (sequences : List SequenceAlignmentConfig) :
    inferBucketInterval64 data sequences = inferBucketInterval data sequences ∧
      Observed (inferBucketInterval data sequences) := by
  have hfold : ∀ (sequences : List SequenceAlignmentConfig) (smallest : Option Int),
      Observed smallest →
        sequences.foldl (fun smallest sequence =>
            match data.sequenceValues.find sequence.sequenceId with
            | none => smallest
            | some points =>
                if points.length < 2 then smallest else observeGaps64 (gapTimes points) smallest)
            (smallest.map (BitVec.ofInt 64)) =
          (sequences.foldl (gapStep data) smallest).map (BitVec.ofInt 64) ∧
        Observed (sequences.foldl (gapStep data) smallest) := by
    intro sequences
    induction sequences with
    | nil => exact fun smallest hsmallest => ⟨rfl, hsmallest⟩
    | cons sequence sequences ih =>
        intro smallest hsmallest
        rw [List.foldl_cons, List.foldl_cons]
        cases hfind : data.sequenceValues.find sequence.sequenceId with
        | none =>
            have hstep : gapStep data smallest sequence = smallest := by rw [gapStep, hfind]
            rw [hstep]
            exact ih smallest hsmallest
        | some points =>
            by_cases hshort : points.length < 2
            · have hstep : gapStep data smallest sequence = smallest := by
                rw [gapStep, hfind]
                exact if_pos hshort
              simp only [hstep, if_pos hshort]
              exact ih smallest hsmallest
            · have hstep : gapStep data smallest sequence =
                  observeGaps (gapTimes points) smallest := by
                rw [gapStep, hfind]
                exact if_neg hshort
              obtain ⟨heq, hobserved⟩ := observeGaps64_eq
                (gapTimes_signed (h.points _ points hfind)) (timesSorted_gapTimes points) hsmallest
              simp only [hstep, if_neg hshort, heq]
              exact ih _ hobserved
  obtain ⟨heq, hobserved⟩ := hfold sequences none fun gap hgap => by cases hgap
  have hinfer : inferBucketInterval data sequences = sequences.foldl (gapStep data) none := rfl
  refine ⟨?_, hinfer ▸ hobserved⟩
  rw [inferBucketInterval64, hinfer]
  refine (congrArg (Option.map BitVec.toInt) heq).trans ?_
  cases hgap : sequences.foldl (gapStep data) none with
  | none => rfl
  | some gap =>
      have hpos := hobserved gap hgap
      refine congrArg some (toInt_ofInt_of_signed (by decide) (signed_iff.mpr ?_))
      unfold int64Min
      omega

/-! ## The grid -/

section Interval

variable {interval : Int}

theorem interval_toNat (hpos : 0 < interval) (hinterval : Signed 64 interval) :
    (BitVec.ofInt 64 interval).toNat = interval.toNat :=
  toNat_ofInt_of_nonneg (le_of_lt hpos) (by
    have hup := (signed_iff.mp hinterval).2
    unfold int64Max at hup
    omega)

/-- The bucket of a time behind the start. -/
theorem bucketIndex64_toNat {windowStart time : Timestamp} (hstart : Signed 64 windowStart)
    (htime : Signed 64 time) (hle : windowStart ≤ time) (hpos : 0 < interval)
    (hinterval : Signed 64 interval) :
    (bucketIndex64 windowStart time interval).toNat = ((time - windowStart) / interval).toNat := by
  have hdifference := toNat_ofInt_sub hle (hstart.sub_lt (by decide) htime)
  obtain ⟨n, hn⟩ := Int.eq_ofNat_of_zero_le (Int.sub_nonneg_of_le hle)
  obtain ⟨d, rfl⟩ := Int.eq_ofNat_of_zero_le (le_of_lt hpos)
  rw [bucketIndex64, BitVec.toNat_udiv, hdifference, interval_toNat hpos hinterval, hn]
  norm_cast

/-- The number of buckets, as 64-bit operations compute it. -/
theorem bucketCount64_toNat {windowStart windowEnd : Timestamp} (hstart : Signed 64 windowStart)
    (hend : Signed 64 windowEnd) (hle : windowStart ≤ windowEnd) (hpos : 0 < interval)
    (hinterval : Signed 64 interval) :
    (bucketCount64 windowStart windowEnd interval).toNat =
      bucketCountOf windowStart windowEnd interval := by
  have hspan := toNat_ofInt_sub hle (hstart.sub_lt (by decide) hend)
  have hlt := (BitVec.ofInt 64 windowEnd - BitVec.ofInt 64 windowStart).isLt
  obtain ⟨n, hn⟩ := Int.eq_ofNat_of_zero_le (Int.sub_nonneg_of_le hle)
  have hwidth := interval_toNat hpos hinterval
  obtain ⟨d, rfl⟩ := Int.eq_ofNat_of_zero_le (le_of_lt hpos)
  rw [hn, Int.toNat_natCast] at hspan
  rw [Int.toNat_natCast] at hwidth
  have hrest : (BitVec.ofInt 64 windowEnd - BitVec.ofInt 64 windowStart) % BitVec.ofInt 64 d ≠ 0 ↔
      n % d ≠ 0 := by
    refine not_congr ⟨fun e => ?_, fun e => BitVec.eq_of_toNat_eq ?_⟩
    · have hnat := congrArg BitVec.toNat e
      rw [BitVec.toNat_umod, hspan, hwidth] at hnat
      exact hnat
    · rw [BitVec.toNat_umod, hspan, hwidth]
      exact e
  have hwhole : ((BitVec.ofInt 64 windowEnd - BitVec.ofInt 64 windowStart) /
      BitVec.ofInt 64 d).toNat = n / d := by
    rw [BitVec.toNat_udiv, hspan, hwidth]
  have hexact : bucketCountOf windowStart windowEnd d = n / d + if n % d ≠ 0 then 1 else 0 := by
    rw [bucketCountOf]
    simp only [hn]
    norm_cast
  rw [hspan] at hlt
  rw [hexact, bucketCount64]
  simp only [hrest]
  split
  · rename_i hne
    -- with a rest the interval is at least two, and the quotient at most half the range
    have htwo : 2 ≤ d := by
      by_contra hsmall
      obtain rfl : d = 1 := by omega
      exact hne (Nat.mod_one n)
    have hhalf : n / d ≤ n / 2 := Nat.div_le_div_left htwo (by decide)
    have hone : (1 : BitVec 64).toNat = 1 := rfl
    rw [BitVec.toNat_add_of_lt (by rw [hwhole, hone]; omega), hwhole, hone]
  · rw [Nat.add_zero, add_zero, hwhole]

end Interval

/-- A grid of 64-bit values. -/
structure Grid64 (grid : Grid) : Prop where
  start : Signed 64 grid.windowStart
  finish : Signed 64 grid.windowEnd
  interval : Signed 64 grid.interval
  positive : 0 < grid.interval
  order : grid.windowStart ≤ grid.windowEnd
  count : grid.bucketCount = bucketCountOf grid.windowStart grid.windowEnd grid.interval

section Loops

variable {grid : Grid}

/-- Filing the points of a sequence, as 64-bit operations do it. -/
theorem addPoints64_eq (h : Grid64 grid) {sequenceId : SequenceId}
    {aggregation : BucketAggregation} {shift : Int} (hshift : Signed 64 shift)
    {points : List RawTimeseriesPoint} (hpoints : ∀ point ∈ points, Signed 64 point.time)
    (buckets : Nat → Option BucketAccumulator) :
    addPoints64 grid sequenceId aggregation shift points buckets =
      some (addPoints grid sequenceId aggregation shift points buckets) := by
  induction points generalizing buckets with
  | nil => rfl
  | cons point points ih =>
      have ih := ih fun other hother => hpoints other (List.mem_cons_of_mem _ hother)
      rw [addPoints64, addPoints]
      split
      · rfl
      rw [addTimestamp64_eq (hpoints point (List.mem_cons_self ..)) hshift]
      rcases addTimestamp_cases point.time shift with htime | htime
      · simp only [htime]
        split
        · exact ih buckets
        · rename_i hinside
          obtain ⟨hlow, hhigh⟩ := not_or.mp hinside
          have hsigned : Signed 64 (point.time + shift) :=
            h.start.between h.finish (not_lt.mp hlow) (le_of_lt (not_le.mp hhigh))
          rw [bucketIndex64_toNat h.start hsigned (not_lt.mp hlow) h.positive h.interval]
          split
          · exact ih buckets
          · cases addToBucket (buckets ((point.time + shift - grid.windowStart) /
                grid.interval).toNat) point aggregation with
            | error error => rfl
            | ok bucket => exact ih _
      · simp only [htime]

/-- A column, as 64-bit operations compute it. -/
theorem alignSequence64_eq (h : Grid64 grid) {data : WindowData} (hdata : Data64 data)
    {shift : SequenceId → Int} (hshift : ∀ s, Signed 64 (shift s)) (sequenceId : SequenceId)
    (aggregation : BucketAggregation) (fillMethod : GapFillMethod) :
    alignSequence64 grid data shift sequenceId aggregation fillMethod =
      some (alignSequence grid data shift sequenceId aggregation fillMethod) := by
  refine (congrArg (Option.map _)
    (addPoints64_eq h (hshift sequenceId) (hdata.pointsOf sequenceId) _)).trans ?_
  rw [alignSequence]
  cases addPoints grid sequenceId aggregation (shift sequenceId)
    ((data.sequenceValues.find sequenceId).getD []) fun _ => none <;> rfl

/-- All columns. -/
theorem alignSequences64_eq (h : Grid64 grid) {data : WindowData} (hdata : Data64 data)
    {shift : SequenceId → Int} (hshift : ∀ s, Signed 64 (shift s))
    (strategies : List (SequenceId × BucketAggregation × GapFillMethod)) :
    alignSequences64 grid data shift strategies =
      some (alignSequences grid data shift strategies) := by
  induction strategies with
  | nil => rfl
  | cons strategy strategies ih =>
      obtain ⟨sequenceId, aggregation, fillMethod⟩ := strategy
      rw [alignSequences64, alignSequences, alignSequence64_eq h hdata hshift]
      cases alignSequence grid data shift sequenceId aggregation fillMethod with
      | error error => rfl
      | ok values =>
          refine (congrArg (Option.map _) ih).trans ?_
          cases alignSequences grid data shift strategies <;> rfl

/-- The columns before one that fails. -/
theorem columnsBefore64_eq (h : Grid64 grid) {data : WindowData} (hdata : Data64 data)
    {shift : SequenceId → Int} (hshift : ∀ s, Signed 64 (shift s))
    (strategies : List (SequenceId × BucketAggregation × GapFillMethod)) :
    columnsBefore64 grid data shift strategies =
      some (columnsBefore grid data shift strategies) := by
  induction strategies with
  | nil => rfl
  | cons strategy strategies ih =>
      obtain ⟨sequenceId, aggregation, fillMethod⟩ := strategy
      rw [columnsBefore64, columnsBefore, alignSequence64_eq h hdata hshift]
      cases alignSequence grid data shift sequenceId aggregation fillMethod with
      | error error => rfl
      | ok values => exact congrArg (Option.map _) ih

/-- A window with a bucket is not empty. -/
theorem Grid64.ok (h : Grid64 grid) {bucket : Nat} (hbucket : bucket < grid.bucketCount) :
    GridOk grid where
  interval_pos := h.positive
  nonempty := by
    refine lt_of_le_of_ne h.order fun e => ?_
    have hnone : grid.bucketCount = 0 := by
      rw [h.count, bucketCountOf, e]
      simp
    omega
  count := h.count

/-- A bucket starts inside the window. -/
theorem Grid64.startOf_lt (h : Grid64 grid) {bucket : Nat} (hbucket : bucket < grid.bucketCount) :
    startOf grid bucket < grid.windowEnd :=
  lt_of_le_of_lt ((h.ok hbucket).startOf_mono (Nat.le_sub_one_of_lt hbucket)) (h.ok hbucket).last.2.1

/-- The time of a bucket is its start. -/
theorem Grid64.bucketTime64_eq (h : Grid64 grid) {bucket : Nat}
    (hbucket : bucket < grid.bucketCount) :
    bucketTime64 grid.windowStart grid.interval bucket = some (some (startOf grid bucket)) := by
  have hlt := h.startOf_lt hbucket
  have hroom : grid.windowEnd - grid.windowStart < 2 ^ 64 := h.start.sub_lt (by decide) h.finish
  have hmax := (signed_iff.mp h.finish).2
  have hwidth := interval_toNat h.positive h.interval
  obtain ⟨d, hd⟩ := Int.eq_ofNat_of_zero_le (le_of_lt h.positive)
  have hpos := h.positive
  rw [startOf] at hlt ⊢
  rw [hd] at hwidth hlt hpos ⊢
  rw [Int.toNat_natCast] at hwidth
  have hoffset : (bucket * d : Nat) < 2 ^ 64 := by
    have hcast : ((bucket * d : Nat) : Int) = (bucket : Int) * (d : Int) := Int.natCast_mul _ _
    dsimp only [Timestamp] at *
    omega
  have hbucketSmall : bucket < 2 ^ 64 :=
    lt_of_le_of_lt (Nat.le_mul_of_pos_right bucket (by omega)) hoffset
  have hnumber : (BitVec.ofNat 64 bucket).toNat = bucket := by
    rw [BitVec.toNat_ofNat, Nat.mod_eq_of_lt hbucketSmall]
  rw [bucketTime64, addNonNegativeTimestampOffset64_eq h.start,
    BitVec.toNat_mul_of_lt (by rw [hnumber, hwidth]; exact hoffset), hnumber, hwidth,
    addNonNegativeTimestampOffset, Int.natCast_mul, if_neg]
  exact not_lt.mpr (le_trans (le_of_lt hlt) hmax)

/-- The samples, as 64-bit operations lay them out. -/
theorem samplesFrom64_eq (h : Grid64 grid) {columns : List (SequenceId × BucketValues)}
    {buckets : List Nat} (hbuckets : ∀ bucket ∈ buckets, bucket < grid.bucketCount) :
    samplesFrom64 grid columns buckets = some (some (buckets.map (sampleAt grid columns))) := by
  induction buckets with
  | nil => rfl
  | cons bucket buckets ih =>
      rw [samplesFrom64, h.bucketTime64_eq (hbuckets bucket (List.mem_cons_self ..))]
      simp only [ih fun other hother => hbuckets other (List.mem_cons_of_mem _ hother)]
      rfl

/-- The exact samples are those, too. -/
theorem samplesFrom_grid (h : Grid64 grid) (columns : List (SequenceId × BucketValues)) :
    samplesFrom grid columns (List.range grid.bucketCount) =
      some ((List.range grid.bucketCount).map (sampleAt grid columns)) :=
  samplesFrom_eq_some.mpr ⟨fun _ hbucket => le_trans
    (le_of_lt (h.startOf_lt (List.mem_range.mp hbucket))) (signed_iff.mp h.finish).2, rfl⟩

end Loops

/-! ## The whole call -/

/-- No more values are missing than there are. -/
theorem missingValues_le {grid : Grid} (hgrid : Grid64 grid) {data : WindowData}
    {shift : SequenceId → Int}
    {strategies : List (SequenceId × BucketAggregation × GapFillMethod)}
    {columns : List (SequenceId × BucketValues)}
    (h : alignSequences grid data shift strategies = .ok columns) :
    missingValues columns ≤ grid.bucketCount * strategies.length := by
  have hall := alignSequences_ok_iff.mp h
  clear h
  induction hall with
  | nil => exact Nat.zero_le _
  | @cons strategy column strategies columns hcolumn _ ih =>
      have hlength := (alignSequence_reference (fun hpos => hgrid.ok hpos) hcolumn.2).1
      have hcount : column.2.countP Option.isNone ≤ grid.bucketCount :=
        hlength ▸ List.countP_le_length
      rw [List.length_cons, Nat.mul_succ]
      show column.2.countP Option.isNone + missingValues columns ≤ _
      omega

/-- Every fixed lag is a 64-bit value. -/
def Lags64 (relations : List RuntimeRelationConfig) : Prop :=
  ∀ relation ∈ relations, ∀ source ∈ relation.sources, ∀ lag, source.lag = .fixed lag →
    Signed 64 lag

/-- Every lag is a 64-bit number. -/
theorem Lags64.lagOf {relations : List RuntimeRelationConfig} (h : Lags64 relations)
    (s : SequenceId) : Signed 64 (lagOf relations s) := by
  have hzero : Signed 64 0 := by decide
  rw [RelationAlignment.lagOf, lagAmong]
  cases hfind : (relations.flatMap RuntimeRelationConfig.sources).find?
      fun source => decide (source.sourceSequenceId = s) with
  | none => exact hzero
  | some source =>
      obtain ⟨relation, hrelation, hsource⟩ :=
        List.mem_flatMap.mp (List.mem_of_find?_eq_some hfind)
      rw [Option.bind_some]
      cases hlag : source.lag with
      | fixed lag => exact h relation hrelation source hsource lag hlag
      | _ => exact hzero

/-- The grid of a window in order. -/
theorem grid64_of_data {data : WindowData} (h : Data64 data)
    (horder : data.windowStartTime ≤ data.windowEndTime) {interval : Int} (hpos : 0 < interval)
    (hinterval : Signed 64 interval) :
    gridOf64 data interval = gridOf data interval ∧ Grid64 (gridOf data interval) := by
  refine ⟨?_, h.start, h.finish, hinterval, hpos, horder, rfl⟩
  rw [gridOf64, gridOf, bucketCount64_toNat h.start h.finish horder hpos hinterval]

/-- The interval of a call is positive, and a 64-bit value. -/
theorem interval_of_call {data : WindowData} (h : Data64 data) {requested : AlignmentConfig}
    (hrequested : ∀ interval ∈ requested.bucketInterval, Signed 64 interval)
    (hpositive : ¬ (requested.bucketInterval.any fun interval => decide (interval ≤ 0)) = true)
    {sequences : List SequenceAlignmentConfig} {interval : Int}
    (hinterval : requested.bucketInterval.or (inferBucketInterval data sequences) =
      some interval) : 0 < interval ∧ Signed 64 interval := by
  cases hasked : requested.bucketInterval with
  | none =>
      rw [hasked, Option.none_or] at hinterval
      have hobserved := (inferBucketInterval64_eq h sequences).2 interval hinterval
      refine ⟨hobserved.1, signed_iff.mpr ⟨?_, hobserved.2⟩⟩
      have hpos := hobserved.1
      unfold int64Min
      omega
  | some asked =>
      rw [hasked, Option.some_or] at hinterval
      obtain rfl := Option.some.inj hinterval
      refine ⟨?_, hrequested _ hasked⟩
      rw [hasked, Option.any_some, decide_eq_true_iff] at hpositive
      omega

/-- On 64-bit values the total and the number of values present do not wrap. -/
theorem total64_eq {count length missing : Nat} (hfits : ¬ (count ≠ 0 ∧
    uint64Max / count < length)) (hmissing : missing ≤ count * length) :
    (BitVec.ofNat 64 count * BitVec.ofNat 64 length).toNat = count * length ∧
      (BitVec.ofNat 64 missing).toNat = missing ∧
      (BitVec.ofNat 64 count * BitVec.ofNat 64 length - BitVec.ofNat 64 missing).toNat =
        count * length - missing := by
  have hproduct : count * length ≤ uint64Max := by
    by_cases hzero : count = 0
    · rw [hzero, Nat.zero_mul]
      exact Nat.zero_le _
    · have hle : length ≤ uint64Max / count := not_lt.mp fun hlt => hfits ⟨hzero, hlt⟩
      rw [Nat.mul_comm]
      exact (Nat.le_div_iff_mul_le (Nat.pos_of_ne_zero hzero)).mp hle
  have hrange : uint64Max < 2 ^ 64 := by decide
  have htotal : (BitVec.ofNat 64 count * BitVec.ofNat 64 length).toNat = count * length := by
    rw [← BitVec.ofNat_mul, BitVec.toNat_ofNat, Nat.mod_eq_of_lt (lt_of_le_of_lt hproduct hrange)]
  have hless : (BitVec.ofNat 64 missing).toNat = missing := by
    rw [BitVec.toNat_ofNat,
      Nat.mod_eq_of_lt (lt_of_le_of_lt (le_trans hmissing hproduct) hrange)]
  refine ⟨htotal, hless, ?_⟩
  rw [BitVec.toNat_sub_of_le (BitVec.le_def.mpr (by rw [htotal, hless]; exact hmissing)), htotal,
    hless]

/-- The call on 64-bit values is defined and is the exact call. -/
theorem alignWithRelations64_eq (projectId : ProjectId) (registry : RuntimeConfigRegistry)
    {data : WindowData} (h : Data64 data) {requested : AlignmentConfig}
    (hrequested : ∀ interval ∈ requested.bucketInterval, Signed 64 interval)
    {relations : List RuntimeRelationConfig} (hlags : Lags64 relations) :
    alignWithRelations64 projectId registry data requested relations =
      some (alignWithRelations projectId registry data requested relations) := by
  simp only [alignWithRelations64, alignWithRelations]
  cases validateWindowData projectId data with
  | some error => rfl
  | none =>
  simp only
  by_cases horder : data.windowEndTime < data.windowStartTime
  · rw [if_pos horder, if_pos horder]
  rw [if_neg horder, if_neg horder]
  by_cases hempty : (requestedSequences data requested).isEmpty
  · rw [if_pos hempty, if_pos hempty]
  rw [if_neg hempty, if_neg hempty]
  cases sequencesError (requestedSequences data requested) [] with
  | some error => rfl
  | none =>
  simp only
  cases hshifts : relationShifts ((requestedSequences data requested).map
      SequenceAlignmentConfig.sequenceId) relations [] [] KeyedTable.empty with
  | error operation => rfl
  | ok shifts =>
  simp only
  by_cases hpositive : (requested.bucketInterval.any fun interval => decide (interval ≤ 0)) = true
  · rw [if_pos hpositive, if_pos hpositive]
  rw [if_neg hpositive, if_neg hpositive, (inferBucketInterval64_eq h _).1]
  cases hinterval : requested.bucketInterval.or
      (inferBucketInterval data (requestedSequences data requested)) with
  | none => rfl
  | some interval =>
  simp only
  obtain ⟨hpos, hsigned⟩ := interval_of_call h hrequested hpositive hinterval
  obtain ⟨hgridEq, hgrid⟩ := grid64_of_data h (not_lt.mp horder) hpos hsigned
  -- the count is a 64-bit number, so that the guard on it is idle
  have hcount : (gridOf data interval).bucketCount ≤ uint64Max := by
    rw [← hgridEq]
    exact Nat.le_of_lt_succ (bucketCount64 _ _ _).isLt
  have hshift : ∀ s, Signed 64 ((shifts.find s).getD 0) := fun s => by
    rw [shifts_eq_lagOf hshifts]
    exact hlags.lagOf s
  rw [hgridEq, if_neg (Nat.not_lt.mpr hcount), alignSequences64_eq hgrid h hshift]
  cases hcolumns : alignSequences (gridOf data interval) data (fun s => (shifts.find s).getD 0)
      ((requestedSequences data requested).map (resolveStrategy projectId registry)) with
  | error error =>
      simp only
      rw [columnsBefore64_eq hgrid h hshift]
      rfl
  | ok columns =>
  simp only
  rw [samplesFrom64_eq hgrid (fun bucket hbucket => List.mem_range.mp hbucket),
    samplesFrom_grid hgrid]
  simp only
  by_cases hmany : (gridOf data interval).bucketCount ≠ 0 ∧
      uint64Max / (gridOf data interval).bucketCount < (requestedSequences data requested).length
  · rw [if_pos hmany, if_pos hmany]
  rw [if_neg hmany, if_neg hmany]
  have hmissing := missingValues_le hgrid hcolumns
  rw [List.length_map] at hmissing
  obtain ⟨htotal, hless, hpresent⟩ := total64_eq hmany hmissing
  have hzero : (BitVec.ofNat 64 (missingValues columns) ≠ 0) ↔ missingValues columns ≠ 0 := by
    refine not_congr ⟨fun e => ?_, fun e => by rw [e]; rfl⟩
    have hnat := congrArg BitVec.toNat e
    rw [hless] at hnat
    exact hnat
  simp only [htotal, hless, hpresent, hzero]

end BucketArithmetic
