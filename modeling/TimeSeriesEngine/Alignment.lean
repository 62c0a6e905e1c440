import TimeSeriesEngine.Registry

/-!
# Aligning a window on a bucket grid

`alignment_service.cpp`.  A window is cut into buckets of one interval, every
sequence is aggregated bucket by bucket and its gaps are filled, and a sample
collects what the sequences have in one bucket.

* `inferBucketInterval` — the smallest positive gap;
* `addPoints`, `finish` — one sequence on the grid;
* `fillValues` — the four ways to fill gaps;
* `alignWithConfig`, `alignWindowData` — the whole window;
* `alignRange` — only the buckets of a range, with its fallback to the whole
  window.

Offsets are unsigned differences of 64-bit times; on such times they are the
plain differences used here.
-/

namespace SeqAlignment

open TseTypes KeyedTable OrderedSeries ConstraintCheck Registry HotWindow

/-- How the points of a bucket become one value. -/
inductive BucketAggregation where
  | first
  | last
  | average
  | maximum
  | minimum
  deriving DecidableEq

/-- How an empty bucket takes a value from its neighbours. -/
inductive GapFillMethod where
  | near
  | previous
  | next
  | linear
  deriving DecidableEq

/-- A sequence to align; what is not set follows from the kind of its instance. -/
structure SequenceAlignmentConfig where
  sequenceId : SequenceId
  aggregation : Option BucketAggregation := none
  fillMethod : Option GapFillMethod := none
  deriving DecidableEq

/-- The sequences to align, none for all, and the width of a bucket, if it is not inferred. -/
structure AlignmentConfig where
  sequences : List SequenceAlignmentConfig := []
  bucketInterval : Option Int := none
  deriving DecidableEq

/-- An affected range, and how many samples in front of it belong to the answer. -/
structure AlignmentRange where
  startTime : Timestamp
  endTime : Timestamp
  prefixSamples : Nat := 0
  deriving DecidableEq

/-- The samples of a call, and what it reports. -/
structure AlignmentResult where
  operation : OperationResult := {}
  alignedData : AlignedWindowData := {}
  projectId : ProjectId := ""

/-- `defaultAggregation`, from the kind of the instance. -/
def defaultAggregation : SeriesKind → BucketAggregation
  | .continuous => .average
  | .discrete => .last
  | .categorical => .last
  | .unspecified => .first

/-- `defaultFillMethod`, from the kind of the instance. -/
def defaultFillMethod : SeriesKind → GapFillMethod
  | .continuous => .linear
  | .discrete => .previous
  | .categorical => .previous
  | .unspecified => .near

/-! ## The interval -/

/-- `observeGap`. -/
def observeGap (smallest : Option Int) (previous current : Timestamp) : Option Int :=
  let gap := current - previous
  if gap = 0 ∨ int64Max < gap then smallest
  else
    match smallest with
    | none => some gap
    | some old => if gap < old then some gap else some old

/-- The gaps between neighbours. -/
def observeGaps : List Timestamp → Option Int → Option Int
  | previous :: current :: rest, smallest =>
      observeGaps (current :: rest) (observeGap smallest previous current)
  | _, smallest => smallest

/-- No point is older than the one in front of it. -/
def timesSorted : List Timestamp → Bool
  | previous :: current :: rest =>
      if current < previous then false else timesSorted (current :: rest)
  | _ => true

/-- The times whose gaps count: unsorted input is sorted first. -/
def gapTimes (points : List RawTimeseriesPoint) : List Timestamp :=
  let times := points.map RawTimeseriesPoint.time
  if timesSorted times then times else sortUnique (fun time => time) times

/-- `inferBucketInterval`: the smallest positive gap between neighbouring points of a sequence. -/
def inferBucketInterval (data : WindowData) (sequences : List SequenceAlignmentConfig) :
    Option Int :=
  sequences.foldl
    (fun smallest sequence =>
      match data.sequenceValues.find sequence.sequenceId with
      | none => smallest
      | some points =>
          if points.length < 2 then smallest else observeGaps (gapTimes points) smallest)
    none

/-! ## One sequence on the grid -/

/-- The buckets of one alignment. -/
structure Grid where
  windowStart : Timestamp
  windowEnd : Timestamp
  interval : Int
  bucketCount : Nat

/-- Whole buckets plus one for the rest. -/
def bucketCountOf (windowStart windowEnd : Timestamp) (interval : Int) : Nat :=
  let span := windowEnd - windowStart
  (span / interval).toNat + if span % interval ≠ 0 then 1 else 0

/-- What a bucket has seen of its points. -/
structure BucketAccumulator where
  firstTime : Timestamp
  lastTime : Timestamp
  firstValue : TimeseriesValue
  lastValue : TimeseriesValue
  sum : ℚ
  minimum : ℚ
  maximum : ℚ
  count : Nat
  deriving DecidableEq

/-- The aggregations that take numbers only. -/
def numericAggregation (aggregation : BucketAggregation) : Bool :=
  decide (aggregation ≠ .first ∧ aggregation ≠ .last)

/-- `BucketAccumulator::add`. -/
def addToBucket (bucket : Option BucketAccumulator) (point : RawTimeseriesPoint)
    (aggregation : BucketAggregation) : Except String BucketAccumulator :=
  let number := numericValue point.value
  if numericAggregation aggregation && number.isNone then
    .error "numeric aggregation requires finite numeric sequence values"
  else
    let value := if numericAggregation aggregation then number.getD 0 else 0
    let step := if numericAggregation aggregation then 1 else 0
    match bucket with
    | none =>
        .ok
          { firstTime := point.time
            lastTime := point.time
            firstValue := point.value
            lastValue := point.value
            sum := value
            minimum := value
            maximum := value
            count := step }
    | some old =>
        .ok
          { firstTime := if point.time < old.firstTime then point.time else old.firstTime
            firstValue := if point.time < old.firstTime then point.value else old.firstValue
            lastTime := if old.lastTime < point.time then point.time else old.lastTime
            lastValue := if old.lastTime < point.time then point.value else old.lastValue
            sum := old.sum + value
            minimum := min old.minimum value
            maximum := max old.maximum value
            count := old.count + step }

/-- `BucketAccumulator::finish`. -/
def finishBucket (aggregation : BucketAggregation) (bucket : BucketAccumulator) :
    TimeseriesValue :=
  match aggregation with
  | .first => bucket.firstValue
  | .last => bucket.lastValue
  | .average => .double (.finite (bucket.sum / bucket.count))
  | .maximum => .double (.finite bucket.maximum)
  | .minimum => .double (.finite bucket.minimum)

/-- `addTimestamp`. -/
def addTimestamp (value offset : Int) : Option Timestamp :=
  if value + offset < int64Min ∨ int64Max < value + offset then none else some (value + offset)

/-- `addNonNegativeTimestampOffset`. -/
def addNonNegativeTimestampOffset (value offset : Int) : Option Timestamp :=
  if int64Max < value + offset then none else some (value + offset)

/-- The loop over the points of one sequence. -/
def addPoints (grid : Grid) (sequenceId : SequenceId) (aggregation : BucketAggregation)
    (shift : Int) :
    List RawTimeseriesPoint → (Nat → Option BucketAccumulator) →
      Except String (Nat → Option BucketAccumulator)
  | [], buckets => .ok buckets
  | point :: points, buckets =>
      if point.sequenceId != sequenceId then
        .error "window point sequence_id does not match its map key"
      else
        match addTimestamp point.time shift with
        | none => .error "relation lag overflowed timestamp range"
        | some effectiveTime =>
            if effectiveTime < grid.windowStart ∨ grid.windowEnd ≤ effectiveTime then
              addPoints grid sequenceId aggregation shift points buckets
            else
              let index := ((effectiveTime - grid.windowStart) / grid.interval).toNat
              if grid.bucketCount ≤ index then
                addPoints grid sequenceId aggregation shift points buckets
              else
                match addToBucket (buckets index) point aggregation with
                | .error error => .error error
                | .ok bucket =>
                    addPoints grid sequenceId aggregation shift points
                      (Function.update buckets index (some bucket))

/-! ## Gaps -/

/-- A column: what each bucket has, if anything. -/
abbrev BucketValues := List (Option TimeseriesValue)

/-- The nearest index in front of `index` that has a value. -/
def previousIndex (values : BucketValues) : Nat → Option Nat
  | 0 => none
  | index + 1 =>
      if (values[index]?.join).isSome then some index else previousIndex values index

/-- The nearest index behind `index` that has a value, `fuel` steps at most. -/
def nextIndexFrom (values : BucketValues) : Nat → Nat → Option Nat
  | 0, _ => none
  | fuel + 1, index =>
      if (values[index]?.join).isSome then some index else nextIndexFrom values fuel (index + 1)

/-- The next bucket behind `index` that has a value. -/
def nextIndex (values : BucketValues) (index : Nat) : Option Nat :=
  nextIndexFrom values (values.length - (index + 1)) (index + 1)

/-- `fillNearAt` on an empty bucket. -/
def nearAt (values : BucketValues) (index : Nat) : Option TimeseriesValue :=
  match previousIndex values index, nextIndex values index with
  | none, none => none
  | none, some next => values[next]?.join
  | some previous, none => values[previous]?.join
  | some previous, some next =>
      if index - previous ≤ next - index then values[previous]?.join else values[next]?.join

/-- Linear fill of an empty bucket: the nearest value at both ends, the line
    between its neighbours elsewhere. -/
def linearAt (values : BucketValues) (index : Nat) : Except String (Option TimeseriesValue) :=
  match previousIndex values index, nextIndex values index with
  | some left, some right =>
      match (values[left]?.join).bind numericValue, (values[right]?.join).bind numericValue with
      | some leftValue, some rightValue =>
          let ratio : ℚ := ((index - left : Nat) : ℚ) / ((right - left : Nat) : ℚ)
          .ok (some (.double (.finite (leftValue + (rightValue - leftValue) * ratio))))
      | _, _ => .error "linear fill requires finite numeric sequence values"
  | _, _ => .ok (nearAt values index)

/-- `GapFillMethod::Previous`. -/
def fillPrevious (previous : Option TimeseriesValue) : BucketValues → BucketValues
  | [] => []
  | value :: values => value.or previous :: fillPrevious (value.or previous) values

/-- Fill the buckets from `index` on; a bucket with a value keeps it. -/
def fillFrom (fill : Nat → Except String (Option TimeseriesValue)) :
    Nat → BucketValues → Except String BucketValues
  | _, [] => .ok []
  | index, value :: values =>
      match if value.isSome then .ok value else fill index with
      | .error error => .error error
      | .ok filled =>
          match fillFrom fill (index + 1) values with
          | .error error => .error error
          | .ok rest => .ok (filled :: rest)

/-- `fillValues`: one pass over the column, by its method. -/
def fillValues (values : BucketValues) : GapFillMethod → Except String BucketValues
  | .near => fillFrom (fun index => .ok (nearAt values index)) 0 values
  | .previous => .ok (fillPrevious none values)
  | .next => .ok (fillPrevious none values.reverse).reverse
  | .linear => fillFrom (linearAt values) 0 values

/-- `alignSequence`. -/
def alignSequence (grid : Grid) (data : WindowData) (shift : SequenceId → Int)
    (sequenceId : SequenceId) (aggregation : BucketAggregation) (fillMethod : GapFillMethod) :
    Except String BucketValues :=
  match addPoints grid sequenceId aggregation (shift sequenceId)
      ((data.sequenceValues.find sequenceId).getD []) fun _ => none with
  | .error error => .error error
  | .ok buckets =>
      fillValues
        ((List.range grid.bucketCount).map fun index =>
          (buckets index).map (finishBucket aggregation))
        fillMethod

/-! ## The whole window -/

/-- The configured strategies, with the defaults of each sequence's kind. -/
def resolveStrategy (projectId : ProjectId) (registry : RuntimeConfigRegistry)
    (sequence : SequenceAlignmentConfig) :
    SequenceId × BucketAggregation × GapFillMethod :=
  let kind :=
    ((findInstance projectId sequence.sequenceId registry).map
      RuntimeInstanceConfig.seriesKind).getD .unspecified
  (sequence.sequenceId, sequence.aggregation.getD (defaultAggregation kind),
    sequence.fillMethod.getD (defaultFillMethod kind))

/-- The first sequence that is empty or configured twice. -/
def sequencesError : List SequenceAlignmentConfig → List SequenceId → Option String
  | [], _ => none
  | sequence :: rest, seen =>
      if sequence.sequenceId.isEmpty then some "alignment sequence_id must not be empty"
      else if sequence.sequenceId ∈ seen then
        some ("duplicate alignment sequence_id: " ++ sequence.sequenceId)
      else sequencesError rest (sequence.sequenceId :: seen)

/-- Every configured sequence on the grid; the first failing one decides. -/
def alignSequences (grid : Grid) (data : WindowData) (shift : SequenceId → Int) :
    List (SequenceId × BucketAggregation × GapFillMethod) →
      Except String (List (SequenceId × BucketValues))
  | [] => .ok []
  | (sequenceId, aggregation, fillMethod) :: rest =>
      match alignSequence grid data shift sequenceId aggregation fillMethod with
      | .error error => .error error
      | .ok values =>
          match alignSequences grid data shift rest with
          | .error error => .error error
          | .ok columns => .ok ((sequenceId, values) :: columns)

/-- The sample of one bucket: what the columns have there. -/
def sampleValues (columns : List (SequenceId × BucketValues)) (bucket : Nat) :
    Table SequenceId TimeseriesValue :=
  columns.foldl
    (fun values column =>
      match column.2[bucket]?.join with
      | some value => emplace column.1 value values
      | none => values)
    KeyedTable.empty

/-- The values that are missing after the gaps have been filled. -/
def missingValues (columns : List (SequenceId × BucketValues)) : Nat :=
  (columns.map fun column => column.2.countP Option.isNone).sum

/-- The samples of all buckets, or `none` when a bucket time leaves the range of
    timestamps. -/
def samplesFrom (grid : Grid) (columns : List (SequenceId × BucketValues)) :
    List Nat → Option (List AlignedSample)
  | [] => some []
  | bucket :: buckets =>
      match addNonNegativeTimestampOffset grid.windowStart (bucket * grid.interval),
          samplesFrom grid columns buckets with
      | some time, some samples =>
          some ({ time := time, values := sampleValues columns bucket } :: samples)
      | _, _ => none

/-- The columns in front of the first sequence that fails. -/
def columnsBefore (grid : Grid) (data : WindowData) (shift : SequenceId → Int) :
    List (SequenceId × BucketAggregation × GapFillMethod) → List (SequenceId × BucketValues)
  | [] => []
  | (sequenceId, aggregation, fillMethod) :: rest =>
      match alignSequence grid data shift sequenceId aggregation fillMethod with
      | .error _ => []
      | .ok values => (sequenceId, values) :: columnsBefore grid data shift rest

/-- The times a loop over the buckets has set when it stops at the first that has none. -/
def timesSet (timeOf : Nat → Option Timestamp) (bucket : Nat) : Option Timestamp :=
  if (List.range bucket).all fun earlier => (timeOf earlier).isSome then timeOf bucket else none

/-- The samples of a call that fails on its grid: some columns have been filled in, and some
    buckets have their time; the others are at zero. -/
def unfinishedSamples (grid : Grid) (columns : List (SequenceId × BucketValues))
    (times : Nat → Option Timestamp) : List AlignedSample :=
  (List.range grid.bucketCount).map fun bucket =>
    { time := (times bucket).getD 0, values := sampleValues columns bucket }

/-- A call that fails on its grid keeps the window and the samples it has. -/
def failedOnGrid (projectId : ProjectId) (data : WindowData) (samples : List AlignedSample)
    (message : String) : AlignmentResult where
  operation := invalidArgument message
  alignedData :=
    { windowStartTime := data.windowStartTime
      windowEndTime := data.windowEndTime
      samples := samples
      projectId := projectId }
  projectId := projectId

/-- `alignWindowData` with a configuration and no relations. -/
def alignWithConfig (projectId : ProjectId) (registry : RuntimeConfigRegistry)
    (data : WindowData) (requested : AlignmentConfig) : AlignmentResult :=
  let failed (message : String) : AlignmentResult :=
    { operation := invalidArgument message
      alignedData := { projectId := projectId }
      projectId := projectId }
  match validateWindowData projectId data with
  | some error => failed error
  | none =>
      if data.windowEndTime < data.windowStartTime then
        failed "alignment window start time must not be after end time"
      else
        let sequences :=
          if requested.sequences.isEmpty then
            data.sequenceValues.keys.map fun sequenceId => { sequenceId := sequenceId }
          else requested.sequences
        if sequences.isEmpty then failed "alignment sequences must not be empty"
        else
          match sequencesError sequences [] with
          | some error => failed error
          | none =>
              if requested.bucketInterval.any fun interval => decide (interval ≤ 0) then
                failed "alignment bucket_interval must be positive"
              else
                match requested.bucketInterval.or (inferBucketInterval data sequences) with
                | none =>
                    failed "cannot infer bucket_interval; provide a positive interval or at least two distinct timestamps"
                | some interval =>
                    let grid : Grid :=
                      { windowStart := data.windowStartTime
                        windowEnd := data.windowEndTime
                        interval := interval
                        bucketCount :=
                          bucketCountOf data.windowStartTime data.windowEndTime interval }
                    let strategies := sequences.map (resolveStrategy projectId registry)
                    match alignSequences grid data (fun _ => 0) strategies with
                    | .error error =>
                        failedOnGrid projectId data
                          (unfinishedSamples grid
                            (columnsBefore grid data (fun _ => 0) strategies) fun _ => none)
                          error
                    | .ok columns =>
                        match samplesFrom grid columns (List.range grid.bucketCount) with
                        | none =>
                            failedOnGrid projectId data
                              (unfinishedSamples grid columns (timesSet fun bucket =>
                                addNonNegativeTimestampOffset grid.windowStart
                                  (bucket * grid.interval)))
                              "alignment bucket time overflowed timestamp range"
                        | some samples =>
                            let total := grid.bucketCount * sequences.length
                            let missing := missingValues columns
                            { operation :=
                                if missing ≠ 0 then
                                  { code := .partialSuccess
                                    successCount := total - missing
                                    failedCount := missing
                                    message :=
                                      "alignment completed with missing values after fill" }
                                else okResult total "window data aligned"
                              alignedData :=
                                { windowStartTime := data.windowStartTime
                                  windowEndTime := data.windowEndTime
                                  samples := samples
                                  projectId := projectId }
                              projectId := projectId }

/-- `alignWindowData` without a configuration. -/
def alignWindowData (projectId : ProjectId) (registry : RuntimeConfigRegistry)
    (data : WindowData) : AlignmentResult :=
  alignWithConfig projectId registry data {}

/-! ## Only a range -/

/-- `pointsAreSorted`. -/
def pointsAreSorted (sequenceId : SequenceId) (points : List RawTimeseriesPoint) : Bool :=
  timesSorted (points.map RawTimeseriesPoint.time) &&
    points.all fun point => point.sequenceId = sequenceId

/-- `bucketIndexForTime`: the bucket of a time, cut to the grid. -/
def bucketIndexForTime (grid : Grid) (time : Timestamp) : Nat :=
  if time ≤ grid.windowStart then 0
  else if grid.windowEnd ≤ time then grid.bucketCount - 1
  else min (grid.bucketCount - 1) ((time - grid.windowStart) / grid.interval).toNat

/-- `cropFullResult`: the samples of the range and the prefix in front of it. -/
def cropFullResult (range : AlignmentRange) (result : AlignmentResult) : AlignmentResult :=
  if !isSuccessful result.operation.code then result
  else
    let samples := result.alignedData.samples
    let front := below AlignedSample.time range.startTime samples
    let inside :=
      (atOrAbove AlignedSample.time range.startTime samples).takeWhile
        fun sample => sample.time ≤ range.endTime
    let cropped := lastN range.prefixSamples front ++ inside
    { result with
      operation := okResult cropped.length "affected window data aligned"
      alignedData := { result.alignedData with samples := cropped } }

/-- The buckets a range alignment works on. -/
structure RangeBuckets where
  targetFirst : Nat
  targetLast : Nat
  localFirst : Nat
  localLast : Nat

/-- The target of a range: its affected buckets and the prefix; and one more bucket on each side. -/
def rangeBuckets (grid : Grid) (range : AlignmentRange) : RangeBuckets :=
  let affectedFirst := bucketIndexForTime grid range.startTime
  let affectedLast := bucketIndexForTime grid range.endTime
  let targetFirst :=
    if range.prefixSamples < affectedFirst then affectedFirst - range.prefixSamples else 0
  let targetLast := max affectedFirst affectedLast
  { targetFirst := targetFirst
    targetLast := targetLast
    localFirst := if targetFirst = 0 then 0 else targetFirst - 1
    localLast :=
      if targetLast + 1 < grid.bucketCount then targetLast + 1 else grid.bucketCount - 1 }

/-- Start of a bucket, when it is a timestamp. -/
def bucketStart (grid : Grid) (bucket : Nat) : Option Timestamp :=
  addNonNegativeTimestampOffset grid.windowStart (bucket * grid.interval)

/-- The points of a sequence inside `[start, finish)`. -/
def pointsIn (start finish : Timestamp) (points : List RawTimeseriesPoint) :
    List RawTimeseriesPoint :=
  below RawTimeseriesPoint.time finish (atOrAbove RawTimeseriesPoint.time start points)

/-- A boundary bucket of the target is empty and the local slice has nothing to
    fill it from. -/
def needsFullAlignment (grid : Grid) (buckets : RangeBuckets) (targetStart targetEnd : Timestamp)
    (localPoints : List RawTimeseriesPoint) : Bool :=
  let firstTargetEnd :=
    if grid.bucketCount ≤ buckets.targetFirst + 1 then grid.windowEnd
    else (bucketStart grid (buckets.targetFirst + 1)).getD grid.windowEnd
  let lastTargetStart := (bucketStart grid buckets.targetLast).getD grid.windowStart
  let target := atOrAbove RawTimeseriesPoint.time targetStart localPoints
  let hasLeftContext := !(below RawTimeseriesPoint.time targetStart localPoints).isEmpty
  let hasRightContext := !(atOrAbove RawTimeseriesPoint.time targetEnd localPoints).isEmpty
  let hasFirstTargetValue := !(below RawTimeseriesPoint.time firstTargetEnd target).isEmpty
  let hasLastTargetValue :=
    match atOrAbove RawTimeseriesPoint.time lastTargetStart localPoints with
    | [] => false
    | point :: _ => decide (point.time < targetEnd)
  (decide (buckets.targetFirst ≠ 0) && !hasFirstTargetValue && !hasLeftContext) ||
    (decide (buckets.targetLast + 1 < grid.bucketCount) && !hasLastTargetValue &&
      !hasRightContext)

/-- The window that holds only the local slice of every sequence. -/
def localWindow (data : WindowData) (localStart localEnd : Timestamp) : WindowData :=
  { windowStartTime := localStart
    windowEndTime := localEnd
    sequenceValues :=
      data.sequenceValues.keys.foldl
        (fun values sequenceId =>
          put sequenceId
            (pointsIn localStart localEnd ((data.sequenceValues.find sequenceId).getD []))
            values)
        KeyedTable.empty }

/-- Keep the target samples of a local alignment. -/
def cropLocalResult (range : AlignmentRange) (buckets : RangeBuckets)
    (result : AlignmentResult) : AlignmentResult :=
  if !isSuccessful result.operation.code || result.alignedData.samples.isEmpty then result
  else
    let samples :=
      (result.alignedData.samples.drop (buckets.targetFirst - buckets.localFirst)).take
        (buckets.targetLast - buckets.targetFirst + 1)
    { result with
      operation := okResult samples.length "affected window data aligned"
      alignedData :=
        { result.alignedData with
          samples := samples
          windowStartTime := (samples.head?.map AlignedSample.time).getD range.startTime
          windowEndTime := (samples.getLast?.map AlignedSample.time).getD range.endTime } }

/-- `alignWindowData` over a range. -/
def alignRange (projectId : ProjectId) (registry : RuntimeConfigRegistry) (data : WindowData)
    (range : AlignmentRange) : AlignmentResult :=
  let failed (message : String) : AlignmentResult := { operation := invalidArgument message }
  if range.endTime < range.startTime then
    failed "alignment range start time must not be after end time"
  else
    match validateWindowData projectId data with
    | some error => failed error
    | none =>
        let sequences : List SequenceAlignmentConfig :=
          data.sequenceValues.keys.map fun sequenceId => { sequenceId := sequenceId }
        match inferBucketInterval data sequences with
        | none => failed "cannot infer bucket_interval for incremental alignment"
        | some interval =>
            if interval ≤ 0 then
              failed "cannot infer bucket_interval for incremental alignment"
            else
              let full := cropFullResult range (alignWindowData projectId registry data)
              let pointsOf (sequenceId : SequenceId) :=
                (data.sequenceValues.find sequenceId).getD []
              if !data.sequenceValues.keys.all
                  (fun sequenceId => pointsAreSorted sequenceId (pointsOf sequenceId)) then
                full
              else
                let grid : Grid :=
                  { windowStart := data.windowStartTime
                    windowEnd := data.windowEndTime
                    interval := interval
                    bucketCount :=
                      bucketCountOf data.windowStartTime data.windowEndTime interval }
                if grid.bucketCount = 0 then
                  failed "incremental alignment window contains no valid buckets"
                else
                  let buckets := rangeBuckets grid range
                  match bucketStart grid buckets.localFirst with
                  | none => failed "incremental alignment start overflowed timestamp range"
                  | some localStart =>
                      match if buckets.localLast + 1 < grid.bucketCount then
                          bucketStart grid (buckets.localLast + 1)
                        else some grid.windowEnd with
                      | none => failed "incremental alignment end overflowed timestamp range"
                      | some localEnd =>
                          match bucketStart grid buckets.targetFirst,
                              if buckets.targetLast + 1 < grid.bucketCount then
                                bucketStart grid (buckets.targetLast + 1)
                              else some grid.windowEnd with
                          | some targetStart, some targetEnd =>
                              if data.sequenceValues.keys.any fun sequenceId =>
                                  needsFullAlignment grid buckets targetStart targetEnd
                                    (pointsIn localStart localEnd (pointsOf sequenceId)) then
                                full
                              else
                                cropLocalResult range buckets
                                  (alignWithConfig projectId registry
                                    (localWindow data localStart localEnd)
                                    { sequences := sequences
                                      bucketInterval := some interval })
                          | _, _ => full

end SeqAlignment
