import Mathlib.Data.Rat.Defs
import Mathlib.Algebra.Order.Ring.Rat
import Mathlib.Algebra.Order.Field.Rat
import TimeSeriesEngine.Library.KeyedTable

/-!
# Points, batches, queries — the data the engine passes around

The records of `types.hpp` and the checks of `data_validation.cpp`.

* A timestamp is a 64-bit count of milliseconds; it is an `Int` here, and the
  places where the code saturates or wraps say so.
* A double is a rational or one of the non-finite values.  Everything the engine
  computes with has passed a finiteness test, so arithmetic is exact.
-/

namespace TseTypes

open KeyedTable

/-- Milliseconds; a 64-bit number where the range matters. -/
abbrev Timestamp := Int
abbrev ProjectId := String
abbrev SequenceId := String

/-- `std::numeric_limits<std::int64_t>::min()`. -/
def int64Min : Int := -9223372036854775808

/-- `std::numeric_limits<std::int64_t>::max()`. -/
def int64Max : Int := 9223372036854775807

/-- `std::numeric_limits<std::uint64_t>::max()`. -/
def uint64Max : Nat := 18446744073709551615

/-- Three days. -/
def kDefaultWindowSizeMs : Int := 3 * 24 * 60 * 60 * 1000

/-- A `double`: a number, or one of the values `std::isfinite` rejects. -/
inductive Double where
  | finite (value : ℚ)
  | infinity
  | negativeInfinity
  | nan
  deriving DecidableEq

/-- `std::isfinite`. -/
def isFinite : Double → Bool
  | .finite _ => true
  | _ => false

/-- The number a finite double stands for; only read after `isFinite`. -/
def number : Double → ℚ
  | .finite q => q
  | _ => 0

/-- `TimeseriesValue`, a variant of four kinds. -/
inductive TimeseriesValue where
  | double (value : Double)
  | int64 (value : Int)
  | bool (value : Bool)
  | string (value : String)
  deriving DecidableEq

/-- `numericValue` / `finiteNumericValue`: the number of a finite numeric value. -/
def numericValue : TimeseriesValue → Option ℚ
  | .double (.finite q) => some q
  | .int64 n => some n
  | _ => none

/-- `OperationCode`. -/
inductive OperationCode where
  | ok
  | partialSuccess
  | invalidArgument
  | notFound
  | failedPrecondition
  | unavailable
  | internalError
  | notImplemented
  deriving DecidableEq

/-- `OperationResult`: a code, what was done, and a text. -/
structure OperationResult where
  code : OperationCode := .ok
  successCount : Nat := 0
  failedCount : Nat := 0
  message : String := ""
  deriving DecidableEq

/-- `invalidArgument`. -/
def invalidArgument (message : String) : OperationResult :=
  { code := .invalidArgument, message := message }

/-- `failedPrecondition`. -/
def failedPrecondition (message : String) : OperationResult :=
  { code := .failedPrecondition, message := message }

/-- `ok`. -/
def okResult (successCount : Nat) (message : String) : OperationResult :=
  { code := .ok, successCount := successCount, message := message }

/-- `isSuccessful`. -/
def isSuccessful (code : OperationCode) : Bool :=
  code = .ok || code = .partialSuccess

/-- `RawTimeseriesPoint`. -/
structure RawTimeseriesPoint where
  time : Timestamp
  sequenceId : SequenceId
  value : TimeseriesValue
  projectId : ProjectId := ""
  deriving DecidableEq

/-- `TimeseriesBatch`. -/
structure TimeseriesBatch where
  points : List RawTimeseriesPoint := []
  projectId : ProjectId := ""
  deriving DecidableEq

/-- `WindowData`: the points of a window, by sequence. -/
structure WindowData where
  windowStartTime : Timestamp := 0
  windowEndTime : Timestamp := 0
  sequenceValues : Table SequenceId (List RawTimeseriesPoint) := KeyedTable.empty
  projectId : ProjectId := ""

/-- `WindowQuery`; a bound that is not set is that of the window. -/
structure WindowQuery where
  sequenceIds : List SequenceId := []
  startTime : Option Timestamp := none
  endTime : Option Timestamp := none
  precedingPoints : Nat := 0
  followingPoints : Nat := 0
  preserveWindowBounds : Bool := false
  deriving DecidableEq

/-- `WindowQueryResult`. -/
structure WindowQueryResult where
  operation : OperationResult := {}
  data : WindowData := {}
  projectId : ProjectId := ""

/-- `SequenceWindowStatistics`. -/
structure SequenceWindowStatistics where
  count : Nat
  average : ℚ
  maximum : ℚ
  minimum : ℚ
  deriving DecidableEq

/-- `WindowStatisticsData`. -/
structure WindowStatisticsData where
  windowStartTime : Timestamp := 0
  windowEndTime : Timestamp := 0
  sequenceStatistics : Table SequenceId SequenceWindowStatistics := KeyedTable.empty
  projectId : ProjectId := ""

/-- `WindowStatisticsResult`. -/
structure WindowStatisticsResult where
  operation : OperationResult := {}
  data : WindowStatisticsData := {}

/-- What one update reports about one sequence. -/
structure SequenceWindowUpdate where
  affectedStartTime : Option Timestamp := none
  affectedEndTime : Option Timestamp := none
  incrementalSafe : Bool := false
  windowEvicted : Bool := false
  deriving DecidableEq

/-- `WindowUpdateResult`: what an update has changed. -/
structure WindowUpdateResult where
  operation : OperationResult := {}
  projectId : ProjectId := ""
  changedSequenceIds : List SequenceId := []
  sequenceUpdates : Table SequenceId SequenceWindowUpdate := KeyedTable.empty
  affectedStartTime : Option Timestamp := none
  affectedEndTime : Option Timestamp := none
  windowStartTime : Option Timestamp := none
  updateGeneration : Nat := 0
  incrementalSafe : Bool := false
  windowEvicted : Bool := false

/-! ## Keys -/

/-- The empty project id stands for the default project. -/
def effectiveProject (projectId : ProjectId) : ProjectId :=
  if projectId.isEmpty then "default" else projectId

/-- Separator of the scoped keys. -/
def scopePrefix (projectId : ProjectId) : String := projectId ++ "\x1e"

/-- `scopedSequenceKey`: the key of a sequence in the shared index. -/
def scopedSequenceKey (projectId : ProjectId) (sequenceId : SequenceId) : String :=
  scopePrefix (effectiveProject projectId) ++ sequenceId

/-- `key.rfind(prefix, 0) == 0`. -/
def hasPrefix (pre key : String) : Bool := pre.toList.isPrefixOf key.toList

theorem effectiveProject_idem (p : ProjectId) :
    effectiveProject (effectiveProject p) = effectiveProject p := by
  unfold effectiveProject
  by_cases h : p.isEmpty = true
  · simp [h]
  · simp [h]

theorem effectiveProject_ne_empty (p : ProjectId) : effectiveProject p ≠ "" := by
  unfold effectiveProject
  split
  · decide
  · rename_i h
    simpa [String.isEmpty_iff] using h

theorem effectiveProject_of_ne {p : ProjectId} (h : p ≠ "") : effectiveProject p = p := by
  unfold effectiveProject
  rw [if_neg]
  simpa [String.isEmpty_iff] using h

theorem append_right_inj_string {a b c : String} (h : a ++ b = a ++ c) : b = c := by
  have := congrArg String.toList h
  simp only [String.toList_append] at this
  exact String.toList_inj.mp (List.append_cancel_left this)

/-- Within one project, different sequences have different keys. -/
theorem scopedSequenceKey_inj {p : ProjectId} {s t : SequenceId} :
    scopedSequenceKey p s = scopedSequenceKey p t ↔ s = t :=
  ⟨fun h => append_right_inj_string h, fun h => by rw [h]⟩

@[simp] theorem scopedSequenceKey_effective (p : ProjectId) (s : SequenceId) :
    scopedSequenceKey (effectiveProject p) s = scopedSequenceKey p s := by
  unfold scopedSequenceKey
  rw [effectiveProject_idem]

theorem hasPrefix_append (pre s : String) : hasPrefix pre (pre ++ s) = true := by
  unfold hasPrefix
  rw [String.toList_append, List.isPrefixOf_iff_prefix]
  exact List.prefix_append _ _

/-- A text with a prefix is the prefix and a rest. -/
theorem hasPrefix_iff {pre key : String} : hasPrefix pre key = true ↔ ∃ s, key = pre ++ s := by
  constructor
  · intro h
    unfold hasPrefix at h
    rw [List.isPrefixOf_iff_prefix] at h
    obtain ⟨t, ht⟩ := h
    refine ⟨String.ofList t, ?_⟩
    apply String.toList_inj.mp
    rw [String.toList_append, String.toList_ofList, ht]
  · rintro ⟨s, rfl⟩
    exact hasPrefix_append pre s

/-- Two prefixes of one key are prefixes of each other. -/
theorem hasPrefix_or_of_both {a b key : String} (ha : hasPrefix a key = true)
    (hb : hasPrefix b key = true) : hasPrefix a b = true ∨ hasPrefix b a = true := by
  rcases List.prefix_or_prefix_of_prefix (List.isPrefixOf_iff_prefix.mp ha)
    (List.isPrefixOf_iff_prefix.mp hb) with hle | hle
  · exact Or.inl (List.isPrefixOf_iff_prefix.mpr hle)
  · exact Or.inr (List.isPrefixOf_iff_prefix.mpr hle)

theorem hasPrefix_scopedSequenceKey (p : ProjectId) (s : SequenceId) :
    hasPrefix (scopePrefix (effectiveProject p)) (scopedSequenceKey p s) = true :=
  hasPrefix_append _ s

/-! ## Validation -/

/-- Byte limit of a sequence id. -/
def kMaxSequenceIdBytes : Nat := 512

/-- Byte limit of a string value. -/
def kMaxStringValueBytes : Nat := 1024

/-- `validateValue` with no expected kind: the diagnostic, or `none` on success. -/
def validateValue : TimeseriesValue → Option String
  | .double d => if isFinite d then none else some "double value must be finite"
  | .string s =>
      if kMaxStringValueBytes < s.utf8ByteSize then some "string value exceeds storage capacity"
      else none
  | _ => none

/-- `validateRawPoint`, without a project. -/
def validatePoint (point : RawTimeseriesPoint) : Option String :=
  if point.sequenceId.isEmpty then some "sequence_id must not be empty"
  else if kMaxSequenceIdBytes < point.sequenceId.utf8ByteSize then
    some "sequence_id exceeds storage capacity"
  else validateValue point.value

/-- `validateRawPoint` in the context of a project. -/
def validateRawPoint (projectId : ProjectId) (point : RawTimeseriesPoint) : Option String :=
  if !point.projectId.isEmpty && point.projectId != projectId then
    some "point project_id does not match request project_id"
  else validatePoint point

/-- `validateBatchContext`. -/
def validateBatchContext (projectId : ProjectId) (batch : TimeseriesBatch) : Option String :=
  if projectId.isEmpty then some "project_id must not be empty"
  else if !batch.projectId.isEmpty && batch.projectId != projectId then
    some "batch project_id does not match request project_id"
  else none

/-- The checks `validateWindowData` makes on the points stored under one key. -/
def validateSequenceValues (projectId : ProjectId) (sequenceId : SequenceId)
    (points : List RawTimeseriesPoint) : Option String :=
  if sequenceId.isEmpty then some "window sequence_id must not be empty"
  else if kMaxSequenceIdBytes < sequenceId.utf8ByteSize then
    some "sequence_id exceeds storage capacity"
  else
    points.findSome? fun point =>
      if point.sequenceId != sequenceId then
        some "window point sequence_id does not match its map key"
      else validateRawPoint projectId point

/-- `validateWindowData`: the first error. -/
def validateWindowData (projectId : ProjectId) (data : WindowData) : Option String :=
  if data.projectId != projectId && !data.projectId.isEmpty then
    some "window project_id does not match request project_id"
  else if data.windowEndTime < data.windowStartTime then
    some "window start time must not be after end time"
  else
    data.sequenceValues.keys.findSome? fun sequenceId =>
      validateSequenceValues projectId sequenceId
        ((data.sequenceValues.find sequenceId).getD [])

/-- A valid point has an id that is not too long. -/
theorem validatePoint_sequenceId {point : RawTimeseriesPoint} (h : validatePoint point = none) :
    point.sequenceId ≠ "" ∧ point.sequenceId.utf8ByteSize ≤ kMaxSequenceIdBytes := by
  unfold validatePoint at h
  split at h
  · exact nomatch h
  · rename_i h1
    split at h
    · exact nomatch h
    · rename_i h2
      exact ⟨by simpa [String.isEmpty_iff] using h1, Nat.le_of_not_lt h2⟩

/-- When a point of a project is valid. -/
theorem validateRawPoint_eq_none {p : ProjectId} {point : RawTimeseriesPoint} :
    validateRawPoint p point = none ↔
      (point.projectId = "" ∨ point.projectId = p) ∧ validatePoint point = none := by
  unfold validateRawPoint
  by_cases h1 : point.projectId = ""
  · simp [h1]
  · by_cases h2 : point.projectId = p
    · simp [h2]
    · simp [h1, h2]

/-- When a sequence is valid. -/
theorem validateSequenceValues_eq_none {p : ProjectId} {s : SequenceId}
    {points : List RawTimeseriesPoint} :
    validateSequenceValues p s points = none ↔
      (s ≠ "" ∧ s.utf8ByteSize ≤ kMaxSequenceIdBytes) ∧
        ∀ q ∈ points, q.sequenceId = s ∧ validateRawPoint p q = none := by
  unfold validateSequenceValues
  by_cases h1 : s = ""
  · simp [h1]
  · by_cases h2 : kMaxSequenceIdBytes < s.utf8ByteSize
    · simp [h1, h2, String.isEmpty_iff]
    · simp only [String.isEmpty_iff, h1, if_false, h2, List.findSome?_eq_none_iff]
      refine ⟨fun h => ⟨⟨h1, Nat.not_lt.mp h2⟩, fun q hq => ?_⟩, fun h q hq => ?_⟩
      · have hq' := h q hq
        split at hq'
        · exact nomatch hq'
        · rename_i hid
          exact ⟨by simpa using hid, hq'⟩
      · rw [if_neg (by simpa using (h.2 q hq).1)]
        exact (h.2 q hq).2

/-- When a batch belongs to a project. -/
theorem validateBatchContext_eq_none {p : ProjectId} {batch : TimeseriesBatch} (hp : p ≠ "") :
    validateBatchContext p batch = none ↔ batch.projectId = "" ∨ batch.projectId = p := by
  unfold validateBatchContext
  by_cases h1 : batch.projectId = ""
  · simp [h1, hp, String.isEmpty_iff]
  · by_cases h2 : batch.projectId = p
    · simp [h2, hp, String.isEmpty_iff]
    · simp [h1, h2, hp, String.isEmpty_iff]

end TseTypes
