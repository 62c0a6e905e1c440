import TimeSeriesEngine.GapFilling

/-!
# Buckets of a part of the grid

`addPoints` collects in a bucket the points whose time lies in it
(`addPoints_ok_iff`), so that a part of the grid with the points of its times has the
buckets of the whole grid (`alignSequence_slice`).
-/

namespace GridSlice

open TseTypes KeyedTable OrderedSeries SeqAlignment GapFilling

variable {grid : Grid}

/-! ## The bucket of a time -/

/-- The bucket `addPoints` puts a time in. -/
def slotOf (grid : Grid) (time : Int) : Option Nat :=
  if time < grid.windowStart ∨ grid.windowEnd ≤ time then none
  else if grid.bucketCount ≤ ((time - grid.windowStart) / grid.interval).toNat then none
  else some ((time - grid.windowStart) / grid.interval).toNat

/-- A time with a bucket passes the tests of the window. -/
theorem slotOf_cases {time : Int} {index : Nat} (h : slotOf grid time = some index) :
    ¬ (time < grid.windowStart ∨ grid.windowEnd ≤ time) ∧
      ¬ grid.bucketCount ≤ ((time - grid.windowStart) / grid.interval).toNat ∧
      ((time - grid.windowStart) / grid.interval).toNat = index := by
  rw [slotOf] at h
  by_cases hout : time < grid.windowStart ∨ grid.windowEnd ≤ time
  · rw [if_pos hout] at h
    cases h
  · rw [if_neg hout] at h
    by_cases hbeyond : grid.bucketCount ≤ ((time - grid.windowStart) / grid.interval).toNat
    · rw [if_pos hbeyond] at h
      cases h
    · rw [if_neg hbeyond] at h
      exact ⟨hout, hbeyond, Option.some.inj h⟩

/-- A window that is not empty, cut into whole buckets and a rest. -/
structure GridOk (grid : Grid) : Prop where
  interval_pos : 0 < grid.interval
  nonempty : grid.windowStart < grid.windowEnd
  count : grid.bucketCount = bucketCountOf grid.windowStart grid.windowEnd grid.interval

/-- The start of a bucket, as a number. -/
def startOf (grid : Grid) (bucket : Nat) : Int := grid.windowStart + bucket * grid.interval

theorem startOf_zero (grid : Grid) : startOf grid 0 = grid.windowStart := by
  rw [startOf, Int.natCast_zero, Int.zero_mul, Int.add_zero]

theorem startOf_succ (grid : Grid) (bucket : Nat) :
    startOf grid (bucket + 1) = startOf grid bucket + grid.interval := by
  rw [startOf, startOf, Int.natCast_add, Int.add_mul]
  omega

/-- The buckets start one after the other. -/
theorem GridOk.startOf_mono (h : GridOk grid) {a b : Nat} (hab : a ≤ b) :
    startOf grid a ≤ startOf grid b := by
  obtain ⟨n, rfl⟩ := Nat.exists_eq_add_of_le hab
  induction n with
  | zero => exact Int.le_refl _
  | succ n ih =>
      have hpos := h.interval_pos
      have hprevious := ih (Nat.le_add_right _ _)
      rw [← Nat.add_assoc, startOf_succ]
      omega

theorem GridOk.startOf_lt (h : GridOk grid) {a b : Nat} (hab : a < b) :
    startOf grid a < startOf grid b := by
  have hle := h.startOf_mono (Nat.succ_le_of_lt hab)
  have hpos := h.interval_pos
  rw [Nat.succ_eq_add_one, startOf_succ] at hle
  omega

/-- A window has `n + 1` buckets when the last one starts inside it and reaches its end. -/
theorem bucketCountOf_eq {start finish interval : Int} (hinterval : 0 < interval) {n : Nat}
    (hinside : start + n * interval < finish) (hend : finish ≤ start + n * interval + interval) :
    bucketCountOf start finish interval = n + 1 := by
  have hspan : finish - start = (finish - start - n * interval) + n * interval := by omega
  have hdiv : (finish - start) / interval = (finish - start - n * interval) / interval + n := by
    conv_lhs => rw [hspan]
    exact Int.add_mul_ediv_right _ _ (by omega)
  have hmod : (finish - start) % interval = (finish - start - n * interval) % interval := by
    conv_lhs => rw [hspan]
    exact Int.add_mul_emod_self_right _ _ _
  have hpieces : bucketCountOf start finish interval =
      ((finish - start) / interval).toNat + if (finish - start) % interval ≠ 0 then 1 else 0 := rfl
  rw [hpieces, hdiv, hmod]
  by_cases hwhole : finish - start - n * interval = interval
  · rw [hwhole, Int.ediv_self (by omega), Int.emod_self, if_neg (fun hne => hne rfl)]
    omega
  · have hzero : (finish - start - n * interval) / interval = 0 :=
      Int.ediv_eq_zero_of_lt (by omega) (by omega)
    have hself : (finish - start - n * interval) % interval = finish - start - n * interval :=
      Int.emod_eq_of_lt (by omega) (by omega)
    rw [hzero, hself, if_pos (by omega)]
    omega

/-- The last bucket starts inside the window and reaches its end. -/
theorem GridOk.last (h : GridOk grid) :
    0 < grid.bucketCount ∧ startOf grid (grid.bucketCount - 1) < grid.windowEnd ∧
      grid.windowEnd ≤ startOf grid grid.bucketCount := by
  obtain ⟨hpos, hnonempty, hcount⟩ := h
  dsimp only [Timestamp] at *
  -- the bucket of the last time of the window
  have hn : 0 ≤ (grid.windowEnd - grid.windowStart - 1) / grid.interval :=
    Int.ediv_nonneg (by omega) (by omega)
  obtain ⟨n, hcast⟩ := Int.eq_ofNat_of_zero_le hn
  have hmul := Int.mul_ediv_add_emod (grid.windowEnd - grid.windowStart - 1) grid.interval
  have hlow := Int.emod_nonneg (grid.windowEnd - grid.windowStart - 1) (by omega : grid.interval ≠ 0)
  have hhigh := Int.emod_lt_of_pos (grid.windowEnd - grid.windowStart - 1) hpos
  rw [hcast, Int.mul_comm] at hmul
  have hbuckets : bucketCountOf grid.windowStart grid.windowEnd grid.interval = n + 1 :=
    bucketCountOf_eq hpos (by omega) (by omega)
  rw [hcount, hbuckets, Nat.add_sub_cancel, startOf_succ, startOf]
  exact ⟨Nat.succ_pos _, by omega, by omega⟩

/-- A time falls into the bucket that contains it. -/
theorem GridOk.slotOf_eq_some (h : GridOk grid) {time : Int} {k : Nat} :
    slotOf grid time = some k ↔
      k < grid.bucketCount ∧ startOf grid k ≤ time ∧ time < startOf grid (k + 1) ∧
        time < grid.windowEnd := by
  have hpos := h.interval_pos
  have hmul := Int.mul_ediv_add_emod (time - grid.windowStart) grid.interval
  have hlow := Int.emod_nonneg (time - grid.windowStart) (by omega : grid.interval ≠ 0)
  have hhigh := Int.emod_lt_of_pos (time - grid.windowStart) hpos
  rw [slotOf]
  by_cases hout : time < grid.windowStart ∨ grid.windowEnd ≤ time
  all_goals dsimp only [Timestamp] at *
  · rw [if_pos hout]
    refine ⟨nofun, fun ⟨_, hstart, _, hend⟩ => ?_⟩
    have hfirst := h.startOf_mono (Nat.zero_le k)
    rw [startOf_zero] at hfirst
    omega
  · rw [if_neg hout]
    have hn : 0 ≤ (time - grid.windowStart) / grid.interval := Int.ediv_nonneg (by omega) (by omega)
    obtain ⟨n, hcast⟩ := Int.eq_ofNat_of_zero_le hn
    have hstart : startOf grid n ≤ time ∧ time < startOf grid (n + 1) := by
      rw [hcast, Int.mul_comm] at hmul
      rw [startOf_succ, startOf]
      omega
    rw [hcast, Int.toNat_natCast]
    have hunique : ∀ m, startOf grid m ≤ time → time < startOf grid (m + 1) → m = n := by
      intro m hm hm'
      rcases Nat.lt_trichotomy m n with hlt | heq | hgt
      · have hle := h.startOf_mono (Nat.succ_le_of_lt hlt)
        rw [Nat.succ_eq_add_one] at hle
        omega
      · exact heq
      · have hle := h.startOf_mono (Nat.succ_le_of_lt hgt)
        rw [Nat.succ_eq_add_one] at hle
        omega
    by_cases hcount : grid.bucketCount ≤ n
    · rw [if_pos hcount]
      refine ⟨nofun, fun ⟨hk, hs, hs', _⟩ => ?_⟩
      have heq := hunique k hs hs'
      omega
    · rw [if_neg hcount, Option.some.injEq]
      constructor
      · rintro rfl
        exact ⟨by omega, hstart.1, hstart.2, by omega⟩
      · rintro ⟨-, hs, hs', -⟩
        exact (hunique k hs hs').symm

/-! ## Collecting points -/

/-- The points of one bucket, one by one. -/
def accumulate (aggregation : BucketAggregation) :
    List RawTimeseriesPoint → Option BucketAccumulator → Except String (Option BucketAccumulator)
  | [], bucket => .ok bucket
  | point :: points, bucket =>
      match addToBucket bucket point aggregation with
      | .error error => .error error
      | .ok next => accumulate aggregation points (some next)

/-- The point's time lies in the bucket. -/
def inSlot (grid : Grid) (bucket : Nat) (point : RawTimeseriesPoint) : Bool :=
  decide (slotOf grid point.time = some bucket)

/-- The point is filed under its sequence and has a time. -/
def Filed (sequenceId : SequenceId) (point : RawTimeseriesPoint) : Prop :=
  point.sequenceId = sequenceId ∧ addTimestamp point.time 0 = some point.time

/-- A shifted time is the sum, or no timestamp. -/
theorem addTimestamp_cases (time shift : Int) :
    addTimestamp time shift = some (time + shift) ∨ addTimestamp time shift = none := by
  rw [addTimestamp]
  split
  · exact Or.inr rfl
  · exact Or.inl rfl

/-- The point's shifted time lies in the bucket. -/
def inShiftedSlot (grid : Grid) (shift : Int) (bucket : Nat) (point : RawTimeseriesPoint) : Bool :=
  decide (slotOf grid (point.time + shift) = some bucket)

/-- The point is filed under its sequence and has a shifted time. -/
def ShiftFiled (sequenceId : SequenceId) (shift : Int) (point : RawTimeseriesPoint) : Prop :=
  point.sequenceId = sequenceId ∧ addTimestamp point.time shift = some (point.time + shift)

/-- A point goes to the bucket of its shifted time and to no other. -/
theorem accumulate_collect {aggregation : BucketAggregation} {shift : Int}
    {point : RawTimeseriesPoint} {index : Nat}
    (hslot : slotOf grid (point.time + shift) = some index) {points : List RawTimeseriesPoint}
    {buckets : Nat → Option BucketAccumulator} {bucket : BucketAccumulator}
    (hadd : addToBucket (buckets index) point aggregation = .ok bucket) (k : Nat) :
    accumulate aggregation ((point :: points).filter (inShiftedSlot grid shift k)) (buckets k) =
      accumulate aggregation (points.filter (inShiftedSlot grid shift k))
        (Function.update buckets index (some bucket) k) := by
  by_cases hk : k = index
  · subst hk
    have hown : inShiftedSlot grid shift k point = true := by
      rw [inShiftedSlot, hslot]
      simp
    rw [List.filter_cons_of_pos hown, accumulate, hadd, Function.update_self]
  · have hother : ¬ inShiftedSlot grid shift k point = true := by
      rw [inShiftedSlot, hslot]
      simpa using fun heq => hk heq.symm
    rw [List.filter_cons_of_neg hother, Function.update_of_ne hk]

section

variable {sequenceId : SequenceId} {aggregation : BucketAggregation} {shift : Int}
  {point : RawTimeseriesPoint} {points : List RawTimeseriesPoint}
  {buckets : Nat → Option BucketAccumulator}

/-- A point outside all buckets is passed over. -/
theorem addPoints_outside (hfiled : ShiftFiled sequenceId shift point)
    (hslot : slotOf grid (point.time + shift) = none) :
    addPoints grid sequenceId aggregation shift (point :: points) buckets =
      addPoints grid sequenceId aggregation shift points buckets := by
  have hid : (point.sequenceId != sequenceId) = false := by simp [hfiled.1]
  rw [addPoints, hid, if_neg Bool.false_ne_true]
  simp only [hfiled.2]
  by_cases hout : point.time + shift < grid.windowStart ∨ grid.windowEnd ≤ point.time + shift
  · rw [if_pos hout]
  · rw [if_neg hout]
    rw [slotOf, if_neg hout] at hslot
    by_cases hbeyond : grid.bucketCount ≤
        ((point.time + shift - grid.windowStart) / grid.interval).toNat
    · rw [if_pos hbeyond]
    · rw [if_neg hbeyond] at hslot
      cases hslot

/-- A point inside goes to the bucket of its shifted time. -/
theorem addPoints_inside (hfiled : ShiftFiled sequenceId shift point) {index : Nat}
    (hslot : slotOf grid (point.time + shift) = some index) {bucket : BucketAccumulator}
    (hadd : addToBucket (buckets index) point aggregation = .ok bucket) :
    addPoints grid sequenceId aggregation shift (point :: points) buckets =
      addPoints grid sequenceId aggregation shift points
        (Function.update buckets index (some bucket)) := by
  have hid : (point.sequenceId != sequenceId) = false := by simp [hfiled.1]
  rw [addPoints, hid, if_neg Bool.false_ne_true]
  simp only [hfiled.2]
  obtain ⟨hout, hbeyond, rfl⟩ := slotOf_cases hslot
  rw [if_neg hout, if_neg hbeyond, hadd]

/-- A point its bucket cannot take ends the collection. -/
theorem addPoints_refused (hfiled : ShiftFiled sequenceId shift point) {index : Nat}
    (hslot : slotOf grid (point.time + shift) = some index) {error : String}
    (hadd : addToBucket (buckets index) point aggregation = .error error) :
    addPoints grid sequenceId aggregation shift (point :: points) buckets = .error error := by
  have hid : (point.sequenceId != sequenceId) = false := by simp [hfiled.1]
  rw [addPoints, hid, if_neg Bool.false_ne_true]
  simp only [hfiled.2]
  obtain ⟨hout, hbeyond, rfl⟩ := slotOf_cases hslot
  rw [if_neg hout, if_neg hbeyond, hadd]

/-- A point that is filed elsewhere, or has no shifted time, ends the collection. -/
theorem addPoints_misfiled (hfiled : ¬ ShiftFiled sequenceId shift point) :
    ∃ error, addPoints grid sequenceId aggregation shift (point :: points) buckets =
      .error error := by
  rw [addPoints]
  by_cases hid : point.sequenceId = sequenceId
  · have hnone : addTimestamp point.time shift = none :=
      (addTimestamp_cases point.time shift).resolve_left fun htime => hfiled ⟨hid, htime⟩
    have hsame : (point.sequenceId != sequenceId) = false := by simp [hid]
    rw [hsame, if_neg Bool.false_ne_true]
    simp only [hnone]
    exact ⟨_, rfl⟩
  · have hother : (point.sequenceId != sequenceId) = true := by simp [hid]
    rw [hother, if_pos rfl]
    exact ⟨_, rfl⟩

end

/-- `addPoints` collects in each bucket the points of its shifted times. -/
theorem addPoints_shift_ok_iff {sequenceId : SequenceId} {aggregation : BucketAggregation}
    {shift : Int} {points : List RawTimeseriesPoint}
    {buckets out : Nat → Option BucketAccumulator} :
    addPoints grid sequenceId aggregation shift points buckets = .ok out ↔
      (∀ point ∈ points, ShiftFiled sequenceId shift point) ∧
        ∀ k, accumulate aggregation (points.filter (inShiftedSlot grid shift k)) (buckets k) =
          .ok (out k) := by
  induction points generalizing buckets with
  | nil =>
      rw [addPoints, Except.ok.injEq]
      constructor
      · rintro rfl
        exact ⟨fun point hpoint => absurd hpoint List.not_mem_nil, fun k => rfl⟩
      · rintro ⟨-, hall⟩
        exact funext fun k => Except.ok.inj (hall k)
  | cons point points ih =>
      rw [List.forall_mem_cons]
      by_cases hfiled : ShiftFiled sequenceId shift point
      · rw [and_iff_right hfiled]
        cases hslot : slotOf grid (point.time + shift) with
        | none =>
            have hskip : ∀ k, ¬ inShiftedSlot grid shift k point = true := by
              intro k
              rw [inShiftedSlot, hslot]
              simp
            rw [addPoints_outside hfiled hslot, ih]
            simp only [List.filter_cons_of_neg (hskip _)]
        | some index =>
            cases hadd : addToBucket (buckets index) point aggregation with
            | error error =>
                rw [addPoints_refused hfiled hslot hadd]
                refine ⟨nofun, fun h => ?_⟩
                have hown : inShiftedSlot grid shift index point = true := by
                  rw [inShiftedSlot, hslot]
                  simp
                have hfailed := h.2 index
                rw [List.filter_cons_of_pos hown, accumulate, hadd] at hfailed
                cases hfailed
            | ok bucket =>
                rw [addPoints_inside hfiled hslot hadd, ih]
                simp only [accumulate_collect hslot hadd]
      · obtain ⟨error, herror⟩ : ∃ error, addPoints grid sequenceId aggregation shift
            (point :: points) buckets = .error error := addPoints_misfiled hfiled
        rw [herror]
        exact ⟨nofun, fun h => absurd h.1.1 hfiled⟩

/-- `addPoints` without a lag collects in each bucket the points of its times. -/
theorem addPoints_ok_iff {sequenceId : SequenceId} {aggregation : BucketAggregation}
    {points : List RawTimeseriesPoint} {buckets out : Nat → Option BucketAccumulator} :
    addPoints grid sequenceId aggregation 0 points buckets = .ok out ↔
      (∀ point ∈ points, Filed sequenceId point) ∧
        ∀ k, accumulate aggregation (points.filter (inSlot grid k)) (buckets k) = .ok (out k) := by
  have hslot : ∀ k, inShiftedSlot grid 0 k = inSlot grid k := by
    intro k
    ext point
    rw [inShiftedSlot, inSlot, Int.add_zero]
  have hfiled : ∀ point, ShiftFiled sequenceId 0 point ↔ Filed sequenceId point := by
    intro point
    rw [ShiftFiled, Filed, Int.add_zero]
  simp only [addPoints_shift_ok_iff, hslot, hfiled]

/-- A bucket that has collected something is not empty. -/
theorem accumulate_isSome {aggregation : BucketAggregation} {points : List RawTimeseriesPoint}
    {bucket out : Option BucketAccumulator}
    (h : accumulate aggregation points bucket = .ok out) :
    out.isSome = true ↔ bucket.isSome = true ∨ points ≠ [] := by
  induction points generalizing bucket with
  | nil =>
      cases h
      simp
  | cons point points ih =>
      rw [accumulate] at h
      cases hadd : addToBucket bucket point aggregation with
      | error error => simp [hadd] at h
      | ok next =>
          simp only [hadd] at h
          simp [ih h]

/-! ## Part of a grid -/

/-- The end of a bucket. -/
def endOf (grid : Grid) (bucket : Nat) : Int :=
  if bucket + 1 < grid.bucketCount then startOf grid (bucket + 1) else grid.windowEnd

/-- The buckets from `first` to `last`. -/
def subGrid (grid : Grid) (first last : Nat) : Grid where
  windowStart := startOf grid first
  windowEnd := endOf grid last
  interval := grid.interval
  bucketCount := last - first + 1

theorem startOf_subGrid (grid : Grid) (first last bucket : Nat) :
    startOf (subGrid grid first last) bucket = startOf grid (bucket + first) := by
  show startOf grid first + bucket * grid.interval = _
  rw [startOf, startOf, Int.natCast_add, Int.add_mul]
  omega

/-- A bucket ends where the next one starts, or with the window. -/
theorem GridOk.endOf_bounds (h : GridOk grid) {bucket : Nat} (hbucket : bucket < grid.bucketCount) :
    startOf grid bucket < endOf grid bucket ∧ endOf grid bucket ≤ startOf grid (bucket + 1) := by
  obtain ⟨-, hinside, hend⟩ := h.last
  rw [endOf]
  by_cases hnext : bucket + 1 < grid.bucketCount
  · rw [if_pos hnext]
    exact ⟨h.startOf_lt (Nat.lt_succ_self _), Int.le_refl _⟩
  · obtain hlast : bucket = grid.bucketCount - 1 := by omega
    rw [if_neg hnext, hlast, Nat.sub_add_cancel (by omega)]
    exact ⟨hinside, hend⟩

/-- A part of a grid is a grid. -/
theorem GridOk.sub (h : GridOk grid) {first last : Nat} (hle : first ≤ last)
    (hlast : last < grid.bucketCount) : GridOk (subGrid grid first last) where
  interval_pos := h.interval_pos
  nonempty := Int.lt_of_le_of_lt (h.startOf_mono hle) (h.endOf_bounds hlast).1
  count := by
    obtain ⟨hinside, hend⟩ := h.endOf_bounds hlast
    have hstart : startOf grid first + ((last - first : Nat) : Int) * grid.interval =
        startOf grid last := by
      have hsub := startOf_subGrid grid first last (last - first)
      rw [Nat.sub_add_cancel hle] at hsub
      exact hsub
    refine (bucketCountOf_eq h.interval_pos ?_ ?_).symm
    · show startOf grid first + ((last - first : Nat) : Int) * grid.interval < endOf grid last
      rw [hstart]
      exact hinside
    · show endOf grid last ≤
        startOf grid first + ((last - first : Nat) : Int) * grid.interval + grid.interval
      rw [hstart, ← startOf_succ]
      exact hend

/-- A time lies in a bucket of the part when it lies in that bucket of the grid. -/
theorem GridOk.slotOf_sub (h : GridOk grid) {first last : Nat} (hle : first ≤ last)
    (hlast : last < grid.bucketCount) {time : Int} {bucket : Nat} (hbucket : bucket ≤ last - first) :
    slotOf (subGrid grid first last) time = some bucket ↔
      slotOf grid time = some (bucket + first) := by
  rw [(h.sub hle hlast).slotOf_eq_some, h.slotOf_eq_some, startOf_subGrid, startOf_subGrid,
    Nat.add_right_comm bucket 1 first]
  show bucket < last - first + 1 ∧ _ ∧ _ ∧ time < endOf grid last ↔ _
  -- the part ends with its last bucket
  have hend : time < startOf grid (bucket + first + 1) → (time < endOf grid last ↔
      time < (grid.windowEnd : Int)) := by
    intro htime
    have hmono := h.startOf_mono (show bucket + first + 1 ≤ last + 1 by omega)
    obtain ⟨-, hinside, -⟩ := h.last
    rw [endOf]
    by_cases hnext : last + 1 < grid.bucketCount
    · have hmonoLast := h.startOf_mono (show last + 1 ≤ grid.bucketCount - 1 by omega)
      rw [if_pos hnext]
      exact ⟨fun _ => by omega, fun _ => by omega⟩
    · rw [if_neg hnext]
  constructor
  · rintro ⟨hlt, hstart, hnext, hinside⟩
    exact ⟨by omega, hstart, hnext, (hend hnext).mp hinside⟩
  · rintro ⟨-, hstart, hnext, hinside⟩
    exact ⟨by omega, hstart, hnext, (hend hnext).mpr hinside⟩

/-- A time in a bucket of the part lies inside the part. -/
theorem GridOk.inside_sub (h : GridOk grid) {first last : Nat} (hle : first ≤ last)
    (hlast : last < grid.bucketCount) {time : Int} {bucket : Nat} (hfirst : first ≤ bucket)
    (hbucket : bucket ≤ last) (hslot : slotOf grid time = some bucket) :
    startOf grid first ≤ time ∧ time < endOf grid last := by
  have hsub : slotOf (subGrid grid first last) time = some (bucket - first) := by
    refine (h.slotOf_sub hle hlast (by omega)).mpr ?_
    rwa [Nat.sub_add_cancel hfirst]
  obtain ⟨-, hstart, -, hinside⟩ := (h.sub hle hlast).slotOf_eq_some.mp hsub
  rw [startOf_subGrid, Nat.sub_add_cancel hfirst] at hstart
  exact ⟨Int.le_trans (h.startOf_mono hfirst) hstart, hinside⟩

/-- The points of a range, without searches. -/
theorem pointsIn_eq {points : List RawTimeseriesPoint}
    (h : Ordered RawTimeseriesPoint.time points) (start finish : Timestamp) :
    pointsIn start finish points =
      points.filter fun point => decide (start ≤ point.time) && decide (point.time < finish) := by
  rw [pointsIn, h.atOrAbove_eq]
  rw [(h.filter RawTimeseriesPoint.time _).below_eq, List.filter_filter]
  exact List.filter_congr fun point _ => Bool.and_comm _ _

/-- The part sees in its buckets what the grid sees there. -/
theorem filter_pointsIn (h : GridOk grid) {first last : Nat} (hle : first ≤ last)
    (hlast : last < grid.bucketCount) {points : List RawTimeseriesPoint}
    (hordered : Ordered RawTimeseriesPoint.time points) {bucket : Nat}
    (hbucket : bucket ≤ last - first) :
    (pointsIn (startOf grid first) (endOf grid last) points).filter
        (inSlot (subGrid grid first last) bucket) =
      points.filter (inSlot grid (bucket + first)) := by
  rw [pointsIn_eq hordered, List.filter_filter]
  refine List.filter_congr fun point _ => ?_
  have hslot : slotOf (subGrid grid first last) point.time = some bucket ↔
      slotOf grid point.time = some (bucket + first) := h.slotOf_sub hle hlast hbucket
  rw [inSlot, inSlot, decide_eq_decide.mpr hslot]
  by_cases hin : slotOf grid point.time = some (bucket + first)
  · obtain ⟨hstart, hend⟩ := h.inside_sub hle hlast (by omega) (by omega) hin
    rw [decide_eq_true hin, decide_eq_true hstart, decide_eq_true hend]
    rfl
  · rw [decide_eq_false hin, Bool.false_and]

/-! ## One sequence -/

/-- The values of the buckets before gaps are filled. -/
def rawValues (grid : Grid) (aggregation : BucketAggregation)
    (buckets : Nat → Option BucketAccumulator) : BucketValues :=
  (List.range grid.bucketCount).map fun index => (buckets index).map (finishBucket aggregation)

theorem rawValues_length (grid : Grid) (aggregation : BucketAggregation)
    (buckets : Nat → Option BucketAccumulator) :
    (rawValues grid aggregation buckets).length = grid.bucketCount := by
  rw [rawValues, List.length_map, List.length_range]

theorem rawValues_get {aggregation : BucketAggregation} {buckets : Nat → Option BucketAccumulator}
    {index : Nat} (h : index < grid.bucketCount) :
    (rawValues grid aggregation buckets)[index]? =
      some ((buckets index).map (finishBucket aggregation)) := by
  rw [rawValues, List.getElem?_map, List.getElem?_range h]
  rfl

/-- A column is computed when its points can be filed and its gaps filled. -/
theorem alignSequence_ok_iff {data : WindowData} {sequenceId : SequenceId}
    {aggregation : BucketAggregation} {method : GapFillMethod} {filled : BucketValues} :
    alignSequence grid data (fun _ => 0) sequenceId aggregation method = .ok filled ↔
      ∃ buckets, addPoints grid sequenceId aggregation 0
          ((data.sequenceValues.find sequenceId).getD []) (fun _ => none) = .ok buckets ∧
        fillValues (rawValues grid aggregation buckets) method = .ok filled := by
  rw [alignSequence]
  cases haddition : addPoints grid sequenceId aggregation 0
      ((data.sequenceValues.find sequenceId).getD []) fun _ => none with
  | error error => simp
  | ok buckets =>
      constructor
      · exact fun h => ⟨buckets, rfl, h⟩
      · rintro ⟨_, hbuckets, h⟩
        cases hbuckets
        exact h

/-- The sequence has a point in the bucket. -/
def HasPoint (grid : Grid) (points : List RawTimeseriesPoint) (bucket : Nat) : Prop :=
  ∃ point ∈ points, slotOf grid point.time = some bucket

/-- At the ends of the target the sequence has a point, in the target's bucket or in
    the one next to it, or the target ends with the grid. -/
structure Reaches (grid : Grid) (points : List RawTimeseriesPoint) (first last : Nat) : Prop where
  left : first = 0 ∨ HasPoint grid points first ∨ HasPoint grid points (first - 1)
  right : grid.bucketCount ≤ last + 1 ∨ HasPoint grid points last ∨ HasPoint grid points (last + 1)

/-- A bucket with a point has a value. -/
theorem rawValues_isSome {sequenceId : SequenceId} {aggregation : BucketAggregation}
    {points : List RawTimeseriesPoint} {buckets : Nat → Option BucketAccumulator}
    (h : addPoints grid sequenceId aggregation 0 points (fun _ => none) = .ok buckets)
    {bucket : Nat} (hpoint : HasPoint grid points bucket) : (buckets bucket).isSome = true := by
  obtain ⟨point, hmem, hslot⟩ := hpoint
  refine (accumulate_isSome ((addPoints_ok_iff.mp h).2 bucket)).mpr (Or.inr ?_)
  exact List.ne_nil_of_mem (List.mem_filter.mpr ⟨hmem, decide_eq_true hslot⟩)

/-- The buckets of the part. -/
def subBuckets (first last : Nat) (buckets : Nat → Option BucketAccumulator) (bucket : Nat) :
    Option BucketAccumulator :=
  if bucket ≤ last - first then buckets (bucket + first) else none

/-- Filing the points of a part fills its buckets as filing all points does. -/
theorem addPoints_sub (h : GridOk grid) {first last : Nat} (hle : first ≤ last)
    (hlast : last < grid.bucketCount) {points : List RawTimeseriesPoint}
    (hordered : Ordered RawTimeseriesPoint.time points) {sequenceId : SequenceId}
    {aggregation : BucketAggregation} {buckets : Nat → Option BucketAccumulator}
    (hpoints : addPoints grid sequenceId aggregation 0 points (fun _ => none) = .ok buckets) :
    addPoints (subGrid grid first last) sequenceId aggregation 0
        (pointsIn (startOf grid first) (endOf grid last) points) (fun _ => none) =
      .ok (subBuckets first last buckets) := by
  obtain ⟨hfiled, hall⟩ := addPoints_ok_iff.mp hpoints
  refine addPoints_ok_iff.mpr ⟨fun point hpoint => ?_, fun bucket => ?_⟩
  · rw [pointsIn_eq hordered] at hpoint
    exact hfiled point (List.mem_filter.mp hpoint).1
  · by_cases hbucket : bucket ≤ last - first
    · rw [filter_pointsIn h hle hlast hordered hbucket, subBuckets, if_pos hbucket]
      exact hall (bucket + first)
    · -- behind the part there is nothing
      have hnone : (pointsIn (startOf grid first) (endOf grid last) points).filter
          (inSlot (subGrid grid first last) bucket) = [] := by
        refine List.filter_eq_nil_iff.mpr fun point _ hin => hbucket ?_
        have hcount := ((h.sub hle hlast).slotOf_eq_some.mp (of_decide_eq_true hin)).1
        exact Nat.le_of_lt_succ hcount
      rw [hnone, subBuckets, if_neg hbucket]
      rfl

/-- The column of a part is a slice of the column. -/
theorem rawValues_slice {first last : Nat} (hle : first ≤ last) (hlast : last < grid.bucketCount)
    (aggregation : BucketAggregation) (buckets : Nat → Option BucketAccumulator) :
    IsSlice (rawValues grid aggregation buckets)
      (rawValues (subGrid grid first last) aggregation (subBuckets first last buckets)) first where
  fits := by
    rw [rawValues_length, rawValues_length]
    show first + (last - first + 1) ≤ grid.bucketCount
    omega
  same := by
    intro index hindex
    rw [rawValues_length] at hindex
    have hindex' : index < last - first + 1 := hindex
    rw [rawValues_get hindex, rawValues_get (by omega), subBuckets, if_pos (by omega)]

/-- **ONE SEQUENCE ON A PART OF THE GRID.**  With one bucket of context on each side
    and a point within reach of both ends of the target, the buckets of the target are
    those of the whole grid. -/
theorem alignSequence_slice (h : GridOk grid) {first last localFirst localLast : Nat}
    (hle : first ≤ last) (hlast : last < grid.bucketCount) (hlocalFirst : localFirst = first - 1)
    (hlocalLast : localLast = if last + 1 < grid.bucketCount then last + 1
      else grid.bucketCount - 1)
    {data localData : WindowData} {sequenceId : SequenceId} {points : List RawTimeseriesPoint}
    (hpoints : (data.sequenceValues.find sequenceId).getD [] = points)
    (hlocal : (localData.sequenceValues.find sequenceId).getD [] =
      pointsIn (startOf grid localFirst) (endOf grid localLast) points)
    (hordered : Ordered RawTimeseriesPoint.time points)
    (hreaches : Reaches grid points first last) {aggregation : BucketAggregation}
    {method : GapFillMethod} (hmethod : method ≠ .next) {filled : BucketValues}
    (hfilled : alignSequence grid data (fun _ => 0) sequenceId aggregation method = .ok filled) :
    ∃ filled', alignSequence (subGrid grid localFirst localLast) localData (fun _ => 0) sequenceId
        aggregation method = .ok filled' ∧
      ∀ bucket, first ≤ bucket → bucket ≤ last →
        valueAt filled' (bucket - localFirst) = valueAt filled bucket := by
  have hbounds : localFirst ≤ first ∧ last ≤ localLast ∧ localLast < grid.bucketCount := by
    rw [hlocalLast]
    split <;> omega
  obtain ⟨hlowFirst, hlowLast, hlocalCount⟩ := hbounds
  obtain ⟨buckets, hadded, hvalues⟩ := alignSequence_ok_iff.mp hfilled
  rw [hpoints] at hadded
  have hslice : IsSlice (rawValues grid aggregation buckets)
      (rawValues (subGrid grid localFirst localLast) aggregation
        (subBuckets localFirst localLast buckets)) localFirst :=
    rawValues_slice (by omega) hlocalCount aggregation buckets
  -- a point in a bucket is a value of the slice
  have hvalue : ∀ bucket, localFirst ≤ bucket → bucket ≤ localLast → HasPoint grid points bucket →
      (valueAt (rawValues (subGrid grid localFirst localLast) aggregation
        (subBuckets localFirst localLast buckets)) (bucket - localFirst)).isSome = true := by
    intro bucket hlow hhigh hpoint
    have hlength : bucket - localFirst < (subGrid grid localFirst localLast).bucketCount := by
      show bucket - localFirst < localLast - localFirst + 1
      omega
    rw [valueAt, rawValues_get hlength, subBuckets, if_pos (by omega), Nat.sub_add_cancel hlow]
    have hsome := rawValues_isSome hadded hpoint
    obtain ⟨bucketValue, hbucketValue⟩ := Option.isSome_iff_exists.mp hsome
    rw [hbucketValue]
    rfl
  have hleft : LeftAnchor (rawValues (subGrid grid localFirst localLast) aggregation
      (subBuckets localFirst localLast buckets)) localFirst (first - localFirst) := by
    rcases hreaches.left with hzero | hpoint | hpoint
    · exact Or.inl (by omega)
    · exact Or.inr ⟨first - localFirst, Nat.le_refl _, hvalue first hlowFirst (by omega) hpoint⟩
    · exact Or.inr ⟨first - 1 - localFirst, by omega,
        hvalue (first - 1) (by omega) (by omega) hpoint⟩
  have hright : RightAnchor (rawValues grid aggregation buckets)
      (rawValues (subGrid grid localFirst localLast) aggregation
        (subBuckets localFirst localLast buckets)) localFirst (last - localFirst) := by
    rcases hreaches.right with hend | hpoint | hpoint
    · refine Or.inl ?_
      rw [rawValues_length, rawValues_length]
      show localFirst + (localLast - localFirst + 1) = grid.bucketCount
      rw [if_neg (by omega)] at hlocalLast
      omega
    · exact Or.inr ⟨last - localFirst, Nat.le_refl _, hvalue last (by omega) hlowLast hpoint⟩
    · by_cases hnext : last + 1 < grid.bucketCount
      · rw [if_pos hnext] at hlocalLast
        exact Or.inr ⟨last + 1 - localFirst, by omega,
          hvalue (last + 1) (by omega) (by omega) hpoint⟩
      · -- no bucket lies behind the last one
        obtain ⟨point, -, hslot⟩ := hpoint
        exact absurd (h.slotOf_eq_some.mp hslot).1 hnext
  obtain ⟨filled', hfilled', -, hsame⟩ := fillValues_slice hslice hmethod hleft hright hvalues
  refine ⟨filled', alignSequence_ok_iff.mpr ⟨_, ?_, hfilled'⟩, fun bucket hlow hhigh => ?_⟩
  · rw [hlocal]
    exact addPoints_sub h (by omega) hlocalCount hordered hadded
  · have hlength : bucket - localFirst < (rawValues (subGrid grid localFirst localLast) aggregation
        (subBuckets localFirst localLast buckets)).length := by
      rw [rawValues_length]
      show bucket - localFirst < localLast - localFirst + 1
      omega
    have hvalueSame := hsame (bucket - localFirst) (by omega) (by omega) hlength
    rwa [Nat.sub_add_cancel (by omega)] at hvalueSame

end GridSlice
