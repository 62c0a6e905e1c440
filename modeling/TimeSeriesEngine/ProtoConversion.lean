import TimeSeriesEngine.ConstraintCheck

/-!
# Messages and their conversion

`proto_conversion.cpp` for values, batches, windows and aligned windows.  A message
stores what is set; an unordered map is walked in an order of its own.

* `windowFromProto`, `windowToProto` and the others — the two traversals of each format;
* `windowFromProto_wire` and the others — what a decoder accepts, the wire can carry;
* `conversion_round_trip` — what an encoder writes, its decoder reads back.
-/

namespace ProtoConversion

open TseTypes KeyedTable ConstraintCheck

/-! ## Messages -/

/-- `oneof kind`. -/
inductive TimeseriesValueMessage where
  | kindNotSet
  | doubleValue (value : Double)
  | int64Value (value : Int)
  | boolValue (value : Bool)
  | stringValue (value : String)
  deriving DecidableEq

/-- A message field that is not set is `none`; the other fields have defaults. -/
structure RawTimeseriesPointMessage where
  time : Timestamp := 0
  sequenceId : String := ""
  value : Option TimeseriesValueMessage := none
  projectId : String := ""
  deriving DecidableEq

/-- A batch on the wire. -/
structure TimeseriesBatchMessage where
  points : List RawTimeseriesPointMessage := []
  projectId : String := ""
  deriving DecidableEq

/-- A point of a sequence on the wire. -/
structure TimeValuePointMessage where
  time : Timestamp := 0
  value : Option TimeseriesValueMessage := none
  deriving DecidableEq

/-- The points of one sequence on the wire. -/
structure SequenceWindowMessage where
  sequenceId : String := ""
  points : List TimeValuePointMessage := []
  deriving DecidableEq

/-- A window on the wire. -/
structure WindowDataMessage where
  windowStartTime : Timestamp := 0
  windowEndTime : Timestamp := 0
  sequences : List SequenceWindowMessage := []
  projectId : String := ""
  deriving DecidableEq

/-- A value of a sample on the wire. -/
structure AlignedValueMessage where
  sequenceId : String := ""
  value : Option TimeseriesValueMessage := none
  deriving DecidableEq

/-- A sample on the wire. -/
structure AlignedSampleMessage where
  time : Timestamp := 0
  values : List AlignedValueMessage := []
  deriving DecidableEq

/-- A window of samples on the wire. -/
structure AlignedWindowDataMessage where
  windowStartTime : Timestamp := 0
  windowEndTime : Timestamp := 0
  samples : List AlignedSampleMessage := []
  projectId : String := ""
  deriving DecidableEq

/-- How a conversion fails: the text it leaves in `*error`, or `none` if it leaves the
    text alone. -/
abbrev ConversionError := Option String

/-- The order in which the entries of an unordered map are walked. -/
structure Walk (ν : Type) where
  order : Table SequenceId ν → List SequenceId
  perm : ∀ table, (order table).Perm table.keys

/-! ## Values -/

/-- `fromProto` of a value; one that is not set is an error. -/
def valueFromProto : TimeseriesValueMessage → Except ConversionError TimeseriesValue
  | .doubleValue value => .ok (.double value)
  | .int64Value value => .ok (.int64 value)
  | .boolValue value => .ok (.bool value)
  | .stringValue value => .ok (.string value)
  | .kindNotSet => .error (some "timeseries value kind is not set")

/-- `toProto` of a value. -/
def valueToProto : TimeseriesValue → TimeseriesValueMessage
  | .double value => .doubleValue value
  | .int64 value => .int64Value value
  | .bool value => .boolValue value
  | .string value => .stringValue value

/-! ## Batches -/

/-- `fromProto` of a point. -/
def pointFromProto (source : RawTimeseriesPointMessage) :
    Except ConversionError RawTimeseriesPoint :=
  if source.sequenceId.isEmpty then .error (some "sequence_id must not be empty")
  else
    match source.value with
    | none => .error none
    | some message =>
        (valueFromProto message).map fun value =>
          { value := value
            time := source.time
            sequenceId := source.sequenceId
            projectId := source.projectId }

/-- `toProto` of a point. -/
def pointToProto (source : RawTimeseriesPoint) : RawTimeseriesPointMessage :=
  { time := source.time
    sequenceId := source.sequenceId
    projectId := source.projectId
    value := some (valueToProto source.value) }

/-- A point without a project takes the one of its batch. -/
def inBatch (projectId : ProjectId) (point : RawTimeseriesPoint) : RawTimeseriesPoint :=
  if point.projectId.isEmpty then { point with projectId := projectId } else point

/-- A point is converted and pushed. -/
def addPointFromProto (target : TimeseriesBatch) (point : RawTimeseriesPointMessage) :
    Except ConversionError TimeseriesBatch :=
  (pointFromProto point).map fun converted =>
    { target with points := target.points ++ [inBatch target.projectId converted] }

/-- `fromProto` of a batch. -/
def batchFromProto (source : TimeseriesBatchMessage) (target : TimeseriesBatch) :
    Except ConversionError TimeseriesBatch :=
  source.points.foldlM addPointFromProto
    { target with points := [], projectId := source.projectId }

/-- `toProto` of a batch. -/
def batchToProto (source : TimeseriesBatch) (target : TimeseriesBatchMessage) :
    TimeseriesBatchMessage :=
  source.points.foldl
    (fun target point => { target with points := target.points ++ [pointToProto point] })
    { target with projectId := source.projectId, points := [] }

/-! ## Windows -/

/-- A point of a window takes the id of its sequence and the project. -/
def windowPointFromProto (sequenceId : SequenceId) (projectId : ProjectId)
    (point : TimeValuePointMessage) : Except ConversionError RawTimeseriesPoint :=
  match point.value with
  | none => .error (some "window point value is not set")
  | some message =>
      (valueFromProto message).map fun value =>
        { time := point.time
          sequenceId := sequenceId
          projectId := projectId
          value := value }

/-- A point of a window is converted and pushed. -/
def addWindowPointFromProto (sequenceId : SequenceId) (target : WindowData)
    (point : TimeValuePointMessage) : Except ConversionError WindowData :=
  (windowPointFromProto sequenceId target.projectId point).map fun converted =>
    { target with
      sequenceValues := adjust sequenceId (fun points => points ++ [converted])
        target.sequenceValues }

/-- One sequence; `sequence_values[id]` goes on with what an earlier one of this id left. -/
def addSequenceFromProto (target : WindowData) (sequence : SequenceWindowMessage) :
    Except ConversionError WindowData :=
  if sequence.sequenceId.isEmpty then .error (some "window sequence_id must not be empty")
  else
    sequence.points.foldlM (addWindowPointFromProto sequence.sequenceId)
      { target with sequenceValues := ensure sequence.sequenceId [] target.sequenceValues }

/-- `fromProto` of a window. -/
def windowFromProto (source : WindowDataMessage) (target : WindowData) :
    Except ConversionError WindowData :=
  source.sequences.foldlM addSequenceFromProto
    { target with
      windowStartTime := source.windowStartTime
      windowEndTime := source.windowEndTime
      projectId := source.projectId
      sequenceValues := KeyedTable.empty }

/-- The message of one sequence. -/
def sequenceToProto (sequenceId : SequenceId) (points : List RawTimeseriesPoint) :
    SequenceWindowMessage :=
  points.foldl
    (fun sequence point =>
      { sequence with
        points := sequence.points ++
          [{ time := point.time, value := some (valueToProto point.value) }] })
    { sequenceId := sequenceId }

/-- The message of a sequence is pushed. -/
def addSequenceToProto (source : WindowData) (target : WindowDataMessage)
    (sequenceId : SequenceId) : WindowDataMessage :=
  match source.sequenceValues.find sequenceId with
  | none => target
  | some points =>
      { target with sequences := target.sequences ++ [sequenceToProto sequenceId points] }

/-- `toProto` of a window, in the order of the map. -/
def windowToProto (walk : Walk (List RawTimeseriesPoint)) (source : WindowData)
    (target : WindowDataMessage) : WindowDataMessage :=
  (walk.order source.sequenceValues).foldl (addSequenceToProto source)
    { target with
      projectId := source.projectId
      windowStartTime := source.windowStartTime
      windowEndTime := source.windowEndTime
      sequences := [] }

/-! ## Aligned windows -/

/-- A value of a sample is converted and filed. -/
def addValueFromProto (values : Table SequenceId TimeseriesValue) (value : AlignedValueMessage) :
    Except ConversionError (Table SequenceId TimeseriesValue) :=
  if value.sequenceId.isEmpty then
    .error (some "aligned value must contain sequence_id and value")
  else
    match value.value with
    | none => .error (some "aligned value must contain sequence_id and value")
    | some message =>
        match valueFromProto message with
        | .error error => .error error
        | .ok converted =>
            if (values.find value.sequenceId).isSome then
              .error (some "aligned sample contains a duplicate sequence_id")
            else .ok (put value.sequenceId converted values)

/-- `fromProto` of a sample. -/
def sampleFromProto (sample : AlignedSampleMessage) : Except ConversionError AlignedSample :=
  (sample.values.foldlM addValueFromProto KeyedTable.empty).map fun values =>
    { time := sample.time, values := values }

/-- A sample is converted and pushed. -/
def addSampleFromProto (target : AlignedWindowData) (sample : AlignedSampleMessage) :
    Except ConversionError AlignedWindowData :=
  (sampleFromProto sample).map fun converted =>
    { target with samples := target.samples ++ [converted] }

/-- `fromProto` of a window of samples. -/
def alignedFromProto (source : AlignedWindowDataMessage) (target : AlignedWindowData) :
    Except ConversionError AlignedWindowData :=
  source.samples.foldlM addSampleFromProto
    { target with
      windowStartTime := source.windowStartTime
      windowEndTime := source.windowEndTime
      projectId := source.projectId
      samples := [] }

/-- The message of a value is pushed. -/
def addValueToProto (sample : AlignedSample) (target : AlignedSampleMessage)
    (sequenceId : SequenceId) : AlignedSampleMessage :=
  match sample.values.find sequenceId with
  | none => target
  | some value =>
      { target with
        values := target.values ++
          [{ sequenceId := sequenceId, value := some (valueToProto value) }] }

/-- `toProto` of a sample, in the order of the map. -/
def sampleToProto (walk : Walk TimeseriesValue) (sample : AlignedSample) : AlignedSampleMessage :=
  (walk.order sample.values).foldl (addValueToProto sample) { time := sample.time }

/-- `toProto` of a window of samples. -/
def alignedToProto (walk : Walk TimeseriesValue) (source : AlignedWindowData)
    (target : AlignedWindowDataMessage) : AlignedWindowDataMessage :=
  source.samples.foldl
    (fun target sample => { target with samples := target.samples ++ [sampleToProto walk sample] })
    { target with
      projectId := source.projectId
      windowStartTime := source.windowStartTime
      windowEndTime := source.windowEndTime
      samples := [] }

/-! ## Repeated fields -/

section Repeated

variable {α β γ δ ε : Type}

/-- Adding to a repeated field, one element after the other. -/
theorem foldl_growing {store : β → α → β} (message : List γ → β) (g : α → γ)
    (h : ∀ field x, store (message field) x = message (field ++ [g x])) (xs : List α)
    (field : List γ) : xs.foldl store (message field) = message (field ++ xs.map g) := by
  induction xs generalizing field with
  | nil => rw [List.foldl_nil, List.map_nil, List.append_nil]
  | cons x xs ih =>
      rw [List.foldl_cons, h, ih, List.map_cons, List.append_assoc, List.singleton_append]

/-- Decoding what was encoded one by one, where every element decodes. -/
theorem foldlM_growing {decode : β → γ → Except ε β} {encode : α → γ} (result : List δ → β)
    (g : α → δ) {xs : List α}
    (h : ∀ field, ∀ x ∈ xs, decode (result field) (encode x) = .ok (result (field ++ [g x])))
    (field : List δ) :
    (xs.map encode).foldlM decode (result field) = .ok (result (field ++ xs.map g)) := by
  induction xs generalizing field with
  | nil =>
      rw [List.map_nil, List.map_nil, List.append_nil]
      rfl
  | cons x xs ih =>
      rw [List.map_cons, List.foldlM_cons, h field x (List.mem_cons_self ..)]
      refine (ih (fun field y hy => h field y (List.mem_cons_of_mem x hy)) (field ++ [g x])).trans ?_
      rw [List.map_cons, List.append_assoc, List.singleton_append]

/-- A loop that appends what it converts. -/
theorem foldl_growing_some {store : β → α → β} (message : List γ → β) (g : α → Option γ)
    (h : ∀ field x, store (message field) x = message (field ++ (g x).toList)) (xs : List α)
    (field : List γ) : xs.foldl store (message field) = message (field ++ xs.filterMap g) := by
  induction xs generalizing field with
  | nil => rw [List.foldl_nil, List.filterMap_nil, List.append_nil]
  | cons x xs ih =>
      rw [List.foldl_cons, h, ih, List.append_assoc, List.filterMap_cons]
      cases g x <;> rfl

/-- What every element keeps, the list keeps. -/
theorem foldlM_keeps {decode : β → γ → Except ε β} {Inv : β → Prop}
    (h : ∀ b c b', Inv b → decode b c = .ok b' → Inv b') {cs : List γ} {b b' : β} (hb : Inv b)
    (hcs : cs.foldlM decode b = .ok b') : Inv b' := by
  induction cs generalizing b with
  | nil =>
      injection hcs with hcs
      exact hcs ▸ hb
  | cons c cs ih =>
      rw [List.foldlM_cons] at hcs
      cases hc : decode b c with
      | error e =>
          rw [hc] at hcs
          cases hcs
      | ok next =>
          rw [hc] at hcs
          exact ih (h b c next hb hc) hcs

/-- The entries of a map, written in the order of a walk and decoded one by one. -/
theorem decode_entries {ν : Type} {table : Table SequenceId ν} (walk : Walk ν)
    (write : SequenceId → ν → γ) {decode : β → γ → Except ε β} (result : Table SequenceId ν → β)
    (h : ∀ s value, table.find s = some value → ∀ values, values.find s = none →
      ∃ values', decode (result values) (write s value) = .ok (result values') ∧
        ∀ u, values'.find u = if u = s then some value else values.find u) :
    ∃ values, ((walk.order table).filterMap fun s => (table.find s).map (write s)).foldlM decode
        (result KeyedTable.empty) = .ok (result values) ∧
      ∀ u, values.find u = table.find u := by
  -- by induction on the keys that are left, none of which is decoded yet
  have hrun : ∀ keys : List SequenceId, keys.Nodup → ∀ values : Table SequenceId ν,
      (∀ s ∈ keys, values.find s = none) →
      ∃ values', (keys.filterMap fun s => (table.find s).map (write s)).foldlM decode
          (result values) = .ok (result values') ∧
        ∀ u, values'.find u = if u ∈ keys then table.find u else values.find u := by
    intro keys
    induction keys with
    | nil => exact fun _ values _ => ⟨values, rfl, fun u => (if_neg List.not_mem_nil).symm⟩
    | cons s keys ih =>
        intro hkeys values hfree
        obtain ⟨hs, hrest⟩ := List.nodup_cons.mp hkeys
        rw [List.filterMap_cons]
        cases hfind : table.find s with
        | none =>
            obtain ⟨values', hdecode, hvalues⟩ := ih hrest values fun u hu =>
              hfree u (List.mem_cons_of_mem s hu)
            refine ⟨values', hdecode, fun u => (hvalues u).trans ?_⟩
            by_cases hus : u = s
            · rw [if_neg (hus ▸ hs), if_pos (hus ▸ List.mem_cons_self ..), hus, hfind]
              exact hfree s (List.mem_cons_self ..)
            · simp [hus]
        | some value =>
            obtain ⟨first, hfirst, hfirsts⟩ := h s value hfind values
              (hfree s (List.mem_cons_self ..))
            obtain ⟨values', hdecode, hvalues⟩ := ih hrest first fun u hu => by
              have hus : u ≠ s := fun e => hs (e ▸ hu)
              rw [hfirsts, if_neg hus]
              exact hfree u (List.mem_cons_of_mem s hu)
            refine ⟨values', ?_, fun u => (hvalues u).trans ?_⟩
            · rw [Option.map_some]
              show List.foldlM decode (result values) (_ :: _) = _
              rw [List.foldlM_cons, hfirst]
              exact hdecode
            · by_cases hus : u = s
              · rw [if_neg (hus ▸ hs), if_pos (hus ▸ List.mem_cons_self ..), hus, hfind, hfirsts,
                  if_pos rfl]
              · simp [hus, hfirsts]
  -- whatever order the map is walked in, every key comes once
  have hwalk := walk.perm table
  obtain ⟨values, hdecode, hvalues⟩ := hrun (walk.order table)
    (hwalk.nodup_iff.mpr table.nodup) KeyedTable.empty fun s _ => rfl
  refine ⟨values, hdecode, fun u => (hvalues u).trans ?_⟩
  by_cases hu : u ∈ walk.order table
  · rw [if_pos hu]
  · have hnone : ¬ (table.find u).isSome := fun hsome =>
      hu (hwalk.mem_iff.mpr ((table.mem_keys u).mpr hsome))
    rw [if_neg hu, Option.not_isSome_iff_eq_none.mp hnone]
    rfl

end Repeated

theorem valueFromProto_toProto (value : TimeseriesValue) :
    valueFromProto (valueToProto value) = .ok value := by
  cases value <;> rfl

/-! ## The round trip of a batch -/

theorem batchToProto_eq (source : TimeseriesBatch) (target : TimeseriesBatchMessage) :
    batchToProto source target =
      { points := source.points.map pointToProto, projectId := source.projectId } := by
  rw [batchToProto]
  exact foldl_growing (fun points => TimeseriesBatchMessage.mk points source.projectId)
    pointToProto (fun _ _ => rfl) source.points []

/-- A point with an id comes back. -/
theorem pointFromProto_toProto {point : RawTimeseriesPoint} (h : point.sequenceId ≠ "") :
    pointFromProto (pointToProto point) = .ok point := by
  rw [pointFromProto]
  refine (if_neg fun hempty => h (String.isEmpty_iff.mp hempty)).trans ?_
  show (valueFromProto (valueToProto point.value)).map _ = _
  rw [valueFromProto_toProto]
  rfl

/-- A batch comes back. -/
theorem batch_round_trip {batch : TimeseriesBatch}
    (h : ∀ point ∈ batch.points, point.sequenceId ≠ "") (message : TimeseriesBatchMessage)
    (target : TimeseriesBatch) :
    batchFromProto (batchToProto batch message) target =
      .ok { batch with points := batch.points.map (inBatch batch.projectId) } := by
  rw [batchToProto_eq, batchFromProto]
  refine foldlM_growing (fun points => TimeseriesBatch.mk points batch.projectId)
    (inBatch batch.projectId) (fun points point hpoint => ?_) []
  rw [addPointFromProto, pointFromProto_toProto (h point hpoint)]
  rfl

/-! ## The round trip of a window -/

/-- A window as the wire carries it: the points of an entry have its id and the project of
    the window. -/
structure WireWindow (window : WindowData) : Prop where
  named : ∀ s ∈ window.sequenceValues.keys, s ≠ ""
  carried : ∀ s points, window.sequenceValues.find s = some points →
    ∀ point ∈ points, point.sequenceId = s ∧ point.projectId = window.projectId

/-- Equal, with the maps compared entry by entry. -/
structure SameWindow (window window' : WindowData) : Prop where
  start : window'.windowStartTime = window.windowStartTime
  finish : window'.windowEndTime = window.windowEndTime
  project : window'.projectId = window.projectId
  values : ∀ s, window'.sequenceValues.find s = window.sequenceValues.find s

/-- The message of a sequence. -/
theorem sequenceToProto_eq (s : SequenceId) (points : List RawTimeseriesPoint) :
    sequenceToProto s points =
      { sequenceId := s
        points := points.map fun point =>
          { time := point.time, value := some (valueToProto point.value) } } := by
  rw [sequenceToProto]
  refine foldl_growing (fun points => SequenceWindowMessage.mk s points)
    (fun point => TimeValuePointMessage.mk point.time (some (valueToProto point.value))) ?_
    points []
  exact fun _ _ => rfl

/-- The points of a sequence, decoded into a map. -/
theorem find_appended (s u : SequenceId) (points : List RawTimeseriesPoint)
    (values : Table SequenceId (List RawTimeseriesPoint)) :
    (points.foldl (fun values point => adjust s (fun old => old ++ [point]) values)
        (ensure s [] values)).find u =
      if u = s then some ((values.find s).getD [] ++ points) else values.find u := by
  have hfold : ∀ (points : List RawTimeseriesPoint)
      (values : Table SequenceId (List RawTimeseriesPoint)),
      (points.foldl (fun values point => adjust s (fun old => old ++ [point]) values) values).find
          u = if u = s then (values.find s).map (· ++ points) else values.find u := by
    intro points
    induction points with
    | nil =>
        intro values
        split
        · rename_i h
          rw [List.foldl_nil, h]
          cases values.find s with
          | none => rfl
          | some old => exact congrArg some (List.append_nil old).symm
        · rfl
    | cons point rest ih =>
        intro values
        rw [List.foldl_cons, ih]
        split
        · rw [find_adjust_self]
          cases values.find s with
          | none => rfl
          | some old => exact congrArg some (List.append_assoc old [point] rest)
        · rename_i h
          rw [find_adjust_of_ne h]
  rw [hfold]
  split
  · rw [find_ensure, if_pos rfl]
    cases values.find s <;> rfl
  · rename_i h
    rw [find_ensure, if_neg h]

/-- A sequence the encoder wrote, decoded into a window of its project. -/
theorem addSequence_toProto {target : WindowData} {s : SequenceId}
    {points : List RawTimeseriesPoint} (hs : s ≠ "")
    (h : ∀ point ∈ points, point.sequenceId = s ∧ point.projectId = target.projectId) :
    ∃ values, addSequenceFromProto target (sequenceToProto s points) =
        .ok { target with sequenceValues := values } ∧
      ∀ u, values.find u =
        if u = s then some ((target.sequenceValues.find s).getD [] ++ points)
        else target.sequenceValues.find u := by
  refine ⟨_, ?_, fun u => find_appended s u points target.sequenceValues⟩
  rw [sequenceToProto_eq, addSequenceFromProto,
    if_neg fun hempty => hs (String.isEmpty_iff.mp hempty)]
  -- a point of the message carries neither id: they are put back in decoding
  have hrun : ∀ (points : List RawTimeseriesPoint) (target : WindowData),
      (∀ point ∈ points, point.sequenceId = s ∧ point.projectId = target.projectId) →
      (points.map fun point =>
          ({ time := point.time, value := some (valueToProto point.value) } :
            TimeValuePointMessage)).foldlM (addWindowPointFromProto s) target =
        .ok { target with
          sequenceValues := points.foldl (fun values point =>
            adjust s (fun old => old ++ [point]) values) target.sequenceValues } := by
    intro points
    induction points with
    | nil =>
        intro target _
        rfl
    | cons point rest ih =>
        intro target hpoints
        obtain ⟨hsequence, hproject⟩ := hpoints point (List.mem_cons_self ..)
        have hpoint : addWindowPointFromProto s target
            { time := point.time, value := some (valueToProto point.value) } =
              .ok { target with
                sequenceValues := adjust s (fun old => old ++ [point]) target.sequenceValues } := by
          rw [addWindowPointFromProto, windowPointFromProto]
          simp only [valueFromProto_toProto]
          rw [← hsequence, ← hproject]
          rfl
        rw [List.map_cons, List.foldlM_cons, hpoint]
        exact ih _ fun other hother => hpoints other (List.mem_cons_of_mem point hother)
  exact hrun points _ h

/-- A window comes back. -/
theorem window_round_trip (walk : Walk (List RawTimeseriesPoint)) {window : WindowData}
    (h : WireWindow window) (message : WindowDataMessage) (target : WindowData) :
    ∃ result, windowFromProto (windowToProto walk window message) target = .ok result ∧
      SameWindow window result := by
  have hwrite : windowToProto walk window message =
      { windowStartTime := window.windowStartTime
        windowEndTime := window.windowEndTime
        sequences := (walk.order window.sequenceValues).filterMap fun s =>
          (window.sequenceValues.find s).map (sequenceToProto s)
        projectId := window.projectId } := by
    rw [windowToProto]
    refine foldl_growing_some (fun sequences => WindowDataMessage.mk window.windowStartTime
      window.windowEndTime sequences window.projectId) _ (fun sequences s => ?_)
      (walk.order window.sequenceValues) []
    rw [addSequenceToProto]
    cases window.sequenceValues.find s with
    | none => rw [Option.map_none, Option.toList_none, List.append_nil]
    | some points => rfl
  obtain ⟨values, hdecode, hvalues⟩ := decode_entries walk sequenceToProto (fun values =>
    WindowData.mk window.windowStartTime window.windowEndTime values window.projectId)
    fun s points hfind values hfree => by
      have hnamed := h.named s ((window.sequenceValues.mem_keys s).mpr (by rw [hfind]; rfl))
      obtain ⟨values', hstep, hvalues⟩ := @addSequence_toProto
        (WindowData.mk window.windowStartTime window.windowEndTime values window.projectId) s points
        hnamed (h.carried s points hfind)
      refine ⟨values', hstep, fun u => (hvalues u).trans ?_⟩
      simp only [hfree]
      rfl
  rw [hwrite]
  exact ⟨_, hdecode, rfl, rfl, rfl, hvalues⟩

/-! ## The round trip of an aligned window -/

/-- An aligned window as the wire carries it: no id is empty. -/
def WireAligned (aligned : AlignedWindowData) : Prop :=
  ∀ sample ∈ aligned.samples, ∀ s ∈ sample.values.keys, s ≠ ""

/-- The same time and the same values, whatever the order of the map. -/
structure SameSample (sample sample' : AlignedSample) : Prop where
  time : sample'.time = sample.time
  values : ∀ s, sample'.values.find s = sample.values.find s

/-- Equal, with the maps of the samples compared entry by entry. -/
structure SameAligned (aligned aligned' : AlignedWindowData) : Prop where
  start : aligned'.windowStartTime = aligned.windowStartTime
  finish : aligned'.windowEndTime = aligned.windowEndTime
  project : aligned'.projectId = aligned.projectId
  samples : List.Forall₂ SameSample aligned.samples aligned'.samples

/-- A value of a sample comes back. -/
theorem addValue_toProto {s : SequenceId} (hs : s ≠ "") {value : TimeseriesValue}
    {values : Table SequenceId TimeseriesValue} (hfree : values.find s = none) :
    addValueFromProto values { sequenceId := s, value := some (valueToProto value) } =
      .ok (put s value values) := by
  rw [addValueFromProto, if_neg fun hempty => hs (String.isEmpty_iff.mp hempty)]
  simp only [valueFromProto_toProto, hfree]
  rfl

/-- A sample comes back. -/
theorem sample_round_trip (walk : Walk TimeseriesValue) {sample : AlignedSample}
    (h : ∀ s ∈ sample.values.keys, s ≠ "") :
    ∃ result, sampleFromProto (sampleToProto walk sample) = .ok result ∧
      SameSample sample result := by
  have hwrite : sampleToProto walk sample =
      { time := sample.time
        values := (walk.order sample.values).filterMap fun s =>
          (sample.values.find s).map fun value =>
            { sequenceId := s, value := some (valueToProto value) } } := by
    rw [sampleToProto]
    refine foldl_growing_some (fun values => AlignedSampleMessage.mk sample.time values) _
      (fun values s => ?_) (walk.order sample.values) []
    rw [addValueToProto]
    cases sample.values.find s with
    | none => rw [Option.map_none, Option.toList_none, List.append_nil]
    | some value => rfl
  obtain ⟨values, hdecode, hvalues⟩ := decode_entries walk
    (fun s value => AlignedValueMessage.mk s (some (valueToProto value))) id
    fun s value hfind values hfree => by
      have hnamed := h s ((sample.values.mem_keys s).mpr (by rw [hfind]; rfl))
      exact ⟨_, addValue_toProto hnamed hfree, fun u => find_put s u value values⟩
  rw [hwrite, sampleFromProto]
  exact ⟨⟨sample.time, values⟩, congrArg (Except.map _) hdecode, rfl, hvalues⟩

/-- Samples come back in their order. -/
theorem decode_samples (walk : Walk TimeseriesValue) (samples : List AlignedSample)
    (h : ∀ sample ∈ samples, ∀ s ∈ sample.values.keys, s ≠ "") (target : AlignedWindowData) :
    ∃ decoded, (samples.map (sampleToProto walk)).foldlM addSampleFromProto target =
        .ok { target with samples := target.samples ++ decoded } ∧
      List.Forall₂ SameSample samples decoded := by
  induction samples generalizing target with
  | nil =>
      refine ⟨[], ?_, List.Forall₂.nil⟩
      rw [List.append_nil]
      rfl
  | cons sample samples ih =>
      obtain ⟨first, hfirst, hsame⟩ := sample_round_trip walk (h sample (List.mem_cons_self ..))
      obtain ⟨decoded, hdecode, hrest⟩ := ih
        (fun other hother => h other (List.mem_cons_of_mem sample hother))
        { target with samples := target.samples ++ [first] }
      refine ⟨first :: decoded, ?_, List.Forall₂.cons hsame hrest⟩
      rw [List.map_cons, List.foldlM_cons, addSampleFromProto, hfirst]
      refine Eq.trans hdecode ?_
      rw [List.append_assoc, List.singleton_append]

/-- Aligned samples come back. -/
theorem aligned_round_trip (walk : Walk TimeseriesValue) {aligned : AlignedWindowData}
    (h : WireAligned aligned) (message : AlignedWindowDataMessage) (target : AlignedWindowData) :
    ∃ result, alignedFromProto (alignedToProto walk aligned message) target = .ok result ∧
      SameAligned aligned result := by
  have hwrite : alignedToProto walk aligned message =
      { windowStartTime := aligned.windowStartTime
        windowEndTime := aligned.windowEndTime
        samples := aligned.samples.map (sampleToProto walk)
        projectId := aligned.projectId } := by
    rw [alignedToProto]
    refine foldl_growing (fun samples => AlignedWindowDataMessage.mk aligned.windowStartTime
      aligned.windowEndTime samples aligned.projectId) (sampleToProto walk) ?_ aligned.samples []
    exact fun _ _ => rfl
  obtain ⟨decoded, hdecode, hsame⟩ := decode_samples walk aligned.samples h
    { target with
      windowStartTime := aligned.windowStartTime
      windowEndTime := aligned.windowEndTime
      projectId := aligned.projectId
      samples := [] }
  rw [hwrite, alignedFromProto]
  exact ⟨_, hdecode, rfl, rfl, rfl, hsame⟩

/-! ## What is accepted -/

/-- A decoded point can be sent back. -/
theorem addWindowPoint_wire {s : SequenceId} (hs : s ≠ "") {target next : WindowData}
    {point : TimeValuePointMessage} (h : WireWindow target)
    (hnext : addWindowPointFromProto s target point = .ok next) : WireWindow next := by
  rw [addWindowPointFromProto] at hnext
  cases hpoint : windowPointFromProto s target.projectId point with
  | error e =>
      rw [hpoint] at hnext
      cases hnext
  | ok converted =>
      rw [hpoint] at hnext
      injection hnext with hnext
      subst hnext
      refine ⟨fun t ht => h.named t (by rwa [keys_adjust] at ht), fun t points ht => ?_⟩
      -- a decoded point gets its ids from the sequence and the window
      have hconverted : converted.sequenceId = s ∧ converted.projectId = target.projectId := by
        rw [windowPointFromProto] at hpoint
        cases hvalue : point.value with
        | none =>
            rw [hvalue] at hpoint
            cases hpoint
        | some message =>
            rw [hvalue] at hpoint
            cases hdecoded : valueFromProto message with
            | error e =>
                simp only [hdecoded] at hpoint
                cases hpoint
            | ok value =>
                simp only [hdecoded] at hpoint
                injection hpoint with hpoint
                rw [← hpoint]
                exact ⟨rfl, rfl⟩
      simp only at ht
      by_cases hts : t = s
      · subst hts
        rw [find_adjust_self] at ht
        obtain ⟨old, hold, rfl⟩ := Option.map_eq_some_iff.mp ht
        intro other hother
        rcases List.mem_append.mp hother with hmem | hmem
        · exact h.carried t old hold other hmem
        · rw [List.mem_singleton.mp hmem]
          exact hconverted
      · rw [find_adjust_of_ne hts] at ht
        exact h.carried t points ht

/-- A decoded sequence can be sent back. -/
theorem addSequence_wire {target next : WindowData} {sequence : SequenceWindowMessage}
    (h : WireWindow target) (hnext : addSequenceFromProto target sequence = .ok next) :
    WireWindow next := by
  rw [addSequenceFromProto] at hnext
  split at hnext
  · cases hnext
  · rename_i hempty
    have hs : sequence.sequenceId ≠ "" := fun e => hempty (String.isEmpty_iff.mpr e)
    refine foldlM_keeps (fun b point b' hb => addWindowPoint_wire hs hb) ?_ hnext
    refine ⟨fun t ht => ?_, fun t points ht => ?_⟩
    · rcases (mem_keys_ensure ..).mp ht with e | hmem
      · rw [e]
        exact hs
      · exact h.named t hmem
    · simp only [find_ensure] at ht
      split at ht
      · rename_i e
        cases hfind : target.sequenceValues.find sequence.sequenceId with
        | none =>
            rw [hfind] at ht
            injection ht with ht
            subst ht
            exact fun point hpoint => absurd hpoint List.not_mem_nil
        | some old =>
            rw [hfind] at ht
            injection ht with ht
            subst ht
            rw [e]
            exact h.carried _ old hfind
      · exact h.carried t points ht

/-- A decoded window is one the wire carries. -/
theorem windowFromProto_wire {source : WindowDataMessage} {target window : WindowData}
    (h : windowFromProto source target = .ok window) : WireWindow window := by
  refine foldlM_keeps (fun b sequence b' hb => addSequence_wire hb) ⟨fun s hs => ?_, ?_⟩ h
  · exact absurd hs List.not_mem_nil
  · intro s points hs
    cases hs

/-- A decoded value has a name. -/
theorem addValue_named {values next : Table SequenceId TimeseriesValue}
    {value : AlignedValueMessage} (h : ∀ s ∈ values.keys, s ≠ "")
    (hnext : addValueFromProto values value = .ok next) : ∀ s ∈ next.keys, s ≠ "" := by
  rw [addValueFromProto] at hnext
  split at hnext
  · cases hnext
  · rename_i hempty
    split at hnext
    · cases hnext
    · split at hnext
      · cases hnext
      · split at hnext
        · cases hnext
        · injection hnext with hnext
          subst hnext
          intro s hs
          rcases (mem_keys_put ..).mp hs with e | hmem
          · rw [e]
            exact fun e => hempty (String.isEmpty_iff.mpr e)
          · exact h s hmem

/-- A decoded aligned window is one the wire carries. -/
theorem alignedFromProto_wire {source : AlignedWindowDataMessage}
    {target aligned : AlignedWindowData} (h : alignedFromProto source target = .ok aligned) :
    WireAligned aligned := by
  refine foldlM_keeps (fun b sample b' hb hstep => ?_) ?_ h
  · rw [addSampleFromProto, sampleFromProto] at hstep
    cases hvalues : sample.values.foldlM addValueFromProto KeyedTable.empty with
    | error e =>
        rw [hvalues] at hstep
        cases hstep
    | ok values =>
        rw [hvalues] at hstep
        injection hstep with hstep
        subst hstep
        intro decoded hdecoded
        rcases List.mem_append.mp hdecoded with hmem | hmem
        · exact hb decoded hmem
        · rw [List.mem_singleton.mp hmem]
          refine foldlM_keeps (fun b value b' hb => addValue_named hb) ?_ hvalues
          exact fun s hs => absurd hs List.not_mem_nil
  · exact fun sample hsample => absurd hsample List.not_mem_nil

/-- The points of a decoded batch have an id, and a project if the batch has one. -/
theorem batchFromProto_wire {source : TimeseriesBatchMessage} {target batch : TimeseriesBatch}
    (h : batchFromProto source target = .ok batch) :
    ∀ point ∈ batch.points, point.sequenceId ≠ "" ∧
      (point.projectId = "" → batch.projectId = "") := by
  refine @foldlM_keeps _ _ _ _ (fun batch : TimeseriesBatch => ∀ point ∈ batch.points,
    point.sequenceId ≠ "" ∧ (point.projectId = "" → batch.projectId = ""))
    (fun b point b' hb hstep => ?_) _ _ _ ?_ h
  · rw [addPointFromProto] at hstep
    cases hpoint : pointFromProto point with
    | error e =>
        rw [hpoint] at hstep
        cases hstep
    | ok converted =>
        rw [hpoint] at hstep
        injection hstep with hstep
        subst hstep
        -- a point without a sequence is refused
        have hnamed : converted.sequenceId ≠ "" := by
          rw [pointFromProto] at hpoint
          split at hpoint
          · cases hpoint
          · rename_i hempty
            split at hpoint
            · cases hpoint
            · rename_i message _
              cases hvalue : valueFromProto message with
              | error e =>
                  rw [hvalue] at hpoint
                  cases hpoint
              | ok value =>
                  rw [hvalue] at hpoint
                  injection hpoint with hpoint
                  rw [← hpoint]
                  exact fun e => hempty (String.isEmpty_iff.mpr e)
        intro other hother
        rcases List.mem_append.mp hother with hmem | hmem
        · exact hb other hmem
        · rw [List.mem_singleton.mp hmem, inBatch]
          split
          · exact ⟨hnamed, id⟩
          · rename_i hempty
            exact ⟨hnamed, fun e => absurd (String.isEmpty_iff.mpr e) hempty⟩
  · exact fun point hpoint => absurd hpoint List.not_mem_nil

/-! ## The round trip -/

/-- **What is written is read back.**  Every window, aligned window and batch the wire can
    carry comes back as it was, whatever order the maps are walked in and whatever the
    message and the target held before; a point without a project comes back with the one
    of its batch. -/
theorem conversion_round_trip (points : Walk (List RawTimeseriesPoint))
    (values : Walk TimeseriesValue) :
    (∀ window, WireWindow window → ∀ message target, ∃ result,
      windowFromProto (windowToProto points window message) target = .ok result ∧
        SameWindow window result) ∧
    (∀ aligned, WireAligned aligned → ∀ message target, ∃ result,
      alignedFromProto (alignedToProto values aligned message) target = .ok result ∧
        SameAligned aligned result) ∧
    (∀ batch : TimeseriesBatch, (∀ point ∈ batch.points, point.sequenceId ≠ "") →
      ∀ message target, batchFromProto (batchToProto batch message) target =
        .ok { batch with points := batch.points.map (inBatch batch.projectId) }) :=
  ⟨fun _ h message target => window_round_trip points h message target,
    fun _ h message target => aligned_round_trip values h message target,
    fun _ h message target => batch_round_trip h message target⟩

/-- The keys in the order of their creation. -/
def creationOrder {ν : Type} : Walk ν := ⟨fun table => table.keys, fun _ => List.Perm.refl _⟩

/-- Two sequences with a value of every kind. -/
def mixedWindow : WindowData :=
  { windowStartTime := 3
    windowEndTime := 9
    projectId := "p"
    sequenceValues :=
      put "s" [⟨3, "s", .double (.finite (1 / 2)), "p"⟩, ⟨4, "s", .bool true, "p"⟩]
        (put "t" [⟨3, "t", .int64 7, "p"⟩, ⟨8, "t", .string "x", "p"⟩] KeyedTable.empty) }

/-- The sample window can be sent. -/
theorem mixedWindow_wire : WireWindow mixedWindow := by
  refine ⟨by decide, fun s points h => ?_⟩
  rw [mixedWindow] at h ⊢
  simp only [find_put] at h
  split at h
  · rename_i hs
    injection h with h
    rw [hs, ← h]
    decide
  split at h
  · rename_i hs
    injection h with h
    rw [hs, ← h]
    decide
  · cases h

/-- Values of all kinds, in all three formats. -/
theorem conversion_round_trip_mixed :
    (∃ result, windowFromProto (windowToProto creationOrder mixedWindow {}) {} = .ok result ∧
      SameWindow mixedWindow result) ∧
    (∃ result, alignedFromProto (alignedToProto creationOrder
        { samples := [⟨3, put "s" (.bool true) KeyedTable.empty⟩] } {}) {} = .ok result ∧
      SameAligned { samples := [⟨3, put "s" (.bool true) KeyedTable.empty⟩] } result) ∧
    batchFromProto (batchToProto
        { points := [⟨3, "s", .int64 7, ""⟩, ⟨4, "t", .bool true, "q"⟩], projectId := "p" } {})
        {} =
      .ok { points := [⟨3, "s", .int64 7, "p"⟩, ⟨4, "t", .bool true, "q"⟩], projectId := "p" } := by
  obtain ⟨hwindow, haligned, hbatch⟩ := conversion_round_trip creationOrder creationOrder
  exact ⟨hwindow mixedWindow mixedWindow_wire {} {}, haligned _ (by unfold WireAligned; decide) {} {},
    hbatch _ (by decide) {} {}⟩

/-- What a decoder accepted comes back as it was decoded. -/
theorem decoded_round_trip (points : Walk (List RawTimeseriesPoint))
    (values : Walk TimeseriesValue) :
    (∀ source target window, windowFromProto source target = .ok window →
      ∀ message target', ∃ result,
        windowFromProto (windowToProto points window message) target' = .ok result ∧
          SameWindow window result) ∧
    (∀ source target aligned, alignedFromProto source target = .ok aligned →
      ∀ message target', ∃ result,
        alignedFromProto (alignedToProto values aligned message) target' = .ok result ∧
          SameAligned aligned result) ∧
    (∀ source target batch, batchFromProto source target = .ok batch →
      ∀ message target', batchFromProto (batchToProto batch message) target' = .ok batch) := by
  refine ⟨fun _ _ _ h message target' => window_round_trip points (windowFromProto_wire h) _ _,
    fun _ _ _ h message target' => aligned_round_trip values (alignedFromProto_wire h) _ _,
    fun _ _ batch h message target' => ?_⟩
  have hwire := batchFromProto_wire h
  rw [batch_round_trip fun point hpoint => (hwire point hpoint).1]
  have hsame : batch.points.map (inBatch batch.projectId) = batch.points := by
    refine (List.map_congr_left fun point hpoint => ?_).trans (List.map_id _)
    rw [inBatch]
    split
    · rename_i hempty
      have hproject := String.isEmpty_iff.mp hempty
      rw [(hwire point hpoint).2 hproject, ← hproject]
      rfl
    · rfl
  rw [hsame]

end ProtoConversion
