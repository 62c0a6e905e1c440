import Mathlib.Algebra.BigOperators.Group.List.Basic
import Mathlib.Data.Nat.Dist
import TimeSeriesEngine.GapFilling
import TimeSeriesEngine.GridSlice

/-!
# What a bucket should hold

The reference for one column, said without accumulators and scans: `Aggregates` is the
value of a non-empty bucket, `FilledWith` the value an empty one takes over.

* `accumulate_aggregates` — the accumulator computes the aggregate;
* `Aggregates.unique` — there is only one;
* `fillValues_reference` — filling gives each bucket its reference value;
* `fillValues_missing` — and leaves out only buckets without a source.
-/

namespace BucketReference

open TseTypes SeqAlignment GapFilling GridSlice

/-! ## Aggregation -/

/-- The numbers of some points. -/
def Numbers (points : List RawTimeseriesPoint) (numbers : List ℚ) : Prop :=
  points.map (fun point => numericValue point.value) = numbers.map some

/-- The point at `i` comes before all others in an order of the times, and is listed
    first among those of its time. -/
def FirstBy (before : Timestamp → Timestamp → Prop) (points : List RawTimeseriesPoint) (i : Nat)
    (point : RawTimeseriesPoint) : Prop :=
  points[i]? = some point ∧ ∀ j other, points[j]? = some other →
    before point.time other.time ∨ point.time = other.time ∧ i ≤ j

/-- The smallest time, listed first. -/
def Earliest : List RawTimeseriesPoint → Nat → RawTimeseriesPoint → Prop :=
  FirstBy fun time other => time < other

/-- The largest time, listed first. -/
def Latest : List RawTimeseriesPoint → Nat → RawTimeseriesPoint → Prop :=
  FirstBy fun time other => other < time

/-- The value of a bucket with these points, in the order they are listed. -/
inductive Aggregates (points : List RawTimeseriesPoint) :
    BucketAggregation → TimeseriesValue → Prop where
  | first {i : Nat} {point : RawTimeseriesPoint} :
      Earliest points i point → Aggregates points .first point.value
  | last {i : Nat} {point : RawTimeseriesPoint} :
      Latest points i point → Aggregates points .last point.value
  | average {numbers : List ℚ} : Numbers points numbers → numbers ≠ [] →
      Aggregates points .average (.double (.finite (numbers.sum / numbers.length)))
  | maximum {numbers : List ℚ} {greatest : ℚ} : Numbers points numbers → greatest ∈ numbers →
      (∀ number ∈ numbers, number ≤ greatest) →
      Aggregates points .maximum (.double (.finite greatest))
  | minimum {numbers : List ℚ} {least : ℚ} : Numbers points numbers → least ∈ numbers →
      (∀ number ∈ numbers, least ≤ number) →
      Aggregates points .minimum (.double (.finite least))

theorem Numbers.unique {points : List RawTimeseriesPoint} {numbers numbers' : List ℚ}
    (h : Numbers points numbers) (h' : Numbers points numbers') : numbers = numbers' :=
  List.map_injective_iff.mpr (Option.some_injective ℚ) (h.symm.trans h')

section FirstBy

variable {before : Timestamp → Timestamp → Prop} [IsStrictTotalOrder Timestamp before]
  {points : List RawTimeseriesPoint} {i j : Nat} {point other : RawTimeseriesPoint}

/-- There is one first point. -/
theorem FirstBy.unique (h : FirstBy before points i point) (h' : FirstBy before points j other) :
    point = other := by
  have hi := h.2 j other h'.1
  have hj := h'.2 i point h.1
  rcases hi with hlt | ⟨heq, hle⟩
  · rcases hj with hgt | ⟨heq, -⟩
    · exact absurd (trans_of before hlt hgt) (irrefl_of before _)
    · exact absurd hlt (heq ▸ irrefl_of before _)
  · rcases hj with hgt | ⟨-, hge⟩
    · exact absurd hgt (heq ▸ irrefl_of before _)
    · have hplace := h.1
      rw [Nat.le_antisymm hle hge, h'.1] at hplace
      exact (Option.some.inj hplace).symm

/-- A point added behind others: an old place, or the new one. -/
theorem getElem?_snoc (h : (points ++ [point])[j]? = some other) :
    points[j]? = some other ∨ j = points.length ∧ other = point := by
  rcases Nat.lt_or_ge j points.length with hlt | hge
  · rw [List.getElem?_append_left hlt] at h
    exact Or.inl h
  · rw [List.getElem?_append_right hge, List.getElem?_singleton] at h
    split at h
    · exact Or.inr ⟨by omega, (Option.some.inj h).symm⟩
    · cases h

/-- A point that comes before the first one is the new first one. -/
theorem FirstBy.replaced (h : FirstBy before points i other)
    (hlt : before point.time other.time) :
    FirstBy before (points ++ [point]) points.length point := by
  refine ⟨List.getElem?_concat_length, fun j added hadded => ?_⟩
  rcases getElem?_snoc hadded with hold | ⟨hj, rfl⟩
  · rcases h.2 j added hold with hless | ⟨heq, -⟩
    · exact Or.inl (trans_of before hlt hless)
    · exact Or.inl (heq ▸ hlt)
  · exact Or.inr ⟨rfl, hj.ge⟩

/-- Any other point leaves it. -/
theorem FirstBy.kept (h : FirstBy before points i other)
    (hge : ¬ before point.time other.time) : FirstBy before (points ++ [point]) i other := by
  have hi : i < points.length := by
    by_contra hout
    have hplace := h.1
    rw [List.getElem?_eq_none (Nat.le_of_not_lt hout)] at hplace
    cases hplace
  refine ⟨by rw [List.getElem?_append_left hi]; exact h.1, fun j added hadded => ?_⟩
  rcases getElem?_snoc hadded with hold | ⟨hj, rfl⟩
  · exact h.2 j added hold
  · rcases trichotomous_of before other.time added.time with hless | heq | hgt
    · exact Or.inl hless
    · exact Or.inr ⟨heq, by omega⟩
    · exact absurd hgt hge

end FirstBy

/-- A bucket has one value. -/
theorem Aggregates.unique {points : List RawTimeseriesPoint} {aggregation : BucketAggregation}
    {value value' : TimeseriesValue} (h : Aggregates points aggregation value)
    (h' : Aggregates points aggregation value') : value = value' := by
  cases h with
  | first hfirst =>
      cases h' with
      | first hfirst' => rw [hfirst.unique hfirst']
  | last hlast =>
      cases h' with
      | last hlast' => rw [hlast.unique hlast']
  | average hnumbers =>
      cases h' with
      | average hnumbers' => rw [hnumbers.unique hnumbers']
  | maximum hnumbers hmem hle =>
      cases h' with
      | maximum hnumbers' hmem' hle' =>
          obtain rfl := hnumbers.unique hnumbers'
          rw [le_antisymm (hle' _ hmem) (hle _ hmem')]
  | minimum hnumbers hmem hle =>
      cases h' with
      | minimum hnumbers' hmem' hle' =>
          obtain rfl := hnumbers.unique hnumbers'
          rw [le_antisymm (hle _ hmem') (hle' _ hmem)]

/-- A bucket with a value has points. -/
theorem Aggregates.nonempty {points : List RawTimeseriesPoint} {aggregation : BucketAggregation}
    {value : TimeseriesValue} (h : Aggregates points aggregation value) : points ≠ [] := by
  rintro rfl
  have hnumbers : ∀ numbers, Numbers [] numbers → numbers = [] := by
    intro numbers hnumbers
    exact List.map_eq_nil_iff.mp (Eq.symm hnumbers)
  cases h with
  | first hfirst => cases hfirst.1
  | last hlast => cases hlast.1
  | average h hne => exact hne (hnumbers _ h)
  | maximum h hmem =>
      rw [hnumbers _ h] at hmem
      cases hmem
  | minimum h hmem =>
      rw [hnumbers _ h] at hmem
      cases hmem

/-- What an accumulator knows of the points it has seen. -/
structure Accumulated (aggregation : BucketAggregation) (points : List RawTimeseriesPoint)
    (bucket : BucketAccumulator) : Prop where
  first : ∃ i point, Earliest points i point ∧ bucket.firstTime = point.time ∧
    bucket.firstValue = point.value
  last : ∃ i point, Latest points i point ∧ bucket.lastTime = point.time ∧
    bucket.lastValue = point.value
  numeric : numericAggregation aggregation = true → ∃ numbers, Numbers points numbers ∧
    bucket.sum = numbers.sum ∧ bucket.count = numbers.length ∧
    (bucket.minimum ∈ numbers ∧ ∀ number ∈ numbers, bucket.minimum ≤ number) ∧
    (bucket.maximum ∈ numbers ∧ ∀ number ∈ numbers, number ≤ bucket.maximum)

theorem FirstBy.single (before : Timestamp → Timestamp → Prop) (point : RawTimeseriesPoint) :
    FirstBy before [point] 0 point := by
  refine ⟨rfl, fun j other hother => ?_⟩
  rcases @getElem?_snoc [] _ _ _ hother with hold | ⟨-, rfl⟩
  · cases hold
  · exact Or.inr ⟨rfl, Nat.zero_le j⟩

/-- The number a point adds, when the aggregation is numeric. -/
theorem addToBucket_number {bucket : Option BucketAccumulator} {point : RawTimeseriesPoint}
    {aggregation : BucketAggregation} {added : BucketAccumulator}
    (h : addToBucket bucket point aggregation = .ok added)
    (hnumeric : numericAggregation aggregation = true) :
    ∃ number, numericValue point.value = some number := by
  rw [addToBucket] at h
  cases hnumber : numericValue point.value with
  | some number => exact ⟨number, rfl⟩
  | none =>
      rw [hnumeric, hnumber] at h
      cases h

/-- The first point of a bucket. -/
theorem accumulated_first {point : RawTimeseriesPoint} {aggregation : BucketAggregation}
    {added : BucketAccumulator} (h : addToBucket none point aggregation = .ok added) :
    Accumulated aggregation [point] added := by
  have hnumber := fun hnumeric => addToBucket_number h hnumeric
  rw [addToBucket] at h
  split at h
  · cases h
  obtain rfl := Except.ok.inj h
  refine ⟨⟨0, point, FirstBy.single _ point, rfl, rfl⟩, ⟨0, point, FirstBy.single _ point, rfl, rfl⟩,
    fun hnumeric => ?_⟩
  obtain ⟨number, hvalue⟩ := hnumber hnumeric
  simp only [hnumeric, if_true, hvalue, Option.getD_some]
  exact ⟨[number], by rw [Numbers, List.map_singleton, hvalue]; rfl, by simp, rfl, by simp, by simp⟩

/-- One more point. -/
theorem Accumulated.add {points : List RawTimeseriesPoint} {point : RawTimeseriesPoint}
    {aggregation : BucketAggregation} {bucket added : BucketAccumulator}
    (hbucket : Accumulated aggregation points bucket)
    (h : addToBucket (some bucket) point aggregation = .ok added) :
    Accumulated aggregation (points ++ [point]) added := by
  have hnumber := fun hnumeric => addToBucket_number h hnumeric
  rw [addToBucket] at h
  split at h
  · cases h
  obtain rfl := Except.ok.inj h
  refine ⟨?_, ?_, fun hnumeric => ?_⟩
  · -- a tie keeps the earlier point as the first
    obtain ⟨i, first, hfirst, htime, hvalue⟩ := hbucket.first
    by_cases hlt : point.time < first.time
    · rw [← htime] at hlt
      simp only [if_pos hlt]
      exact ⟨_, point, FirstBy.replaced hfirst (htime ▸ hlt), rfl, rfl⟩
    · have hkept := FirstBy.kept hfirst hlt
      rw [← htime] at hlt
      simp only [if_neg hlt]
      exact ⟨i, first, hkept, htime, hvalue⟩
  · -- and as the last: `addToBucket` replaces only on a strictly later time
    obtain ⟨i, last, hlast, htime, hvalue⟩ := hbucket.last
    by_cases hlt : last.time < point.time
    · have hreplaced := FirstBy.replaced hlast hlt
      rw [← htime] at hlt
      simp only [if_pos hlt]
      exact ⟨_, point, hreplaced, rfl, rfl⟩
    · have hkept := FirstBy.kept hlast hlt
      rw [← htime] at hlt
      simp only [if_neg hlt]
      exact ⟨i, last, hkept, htime, hvalue⟩
  · -- a bucket of numbers got a number
    obtain ⟨number, hvalue⟩ := hnumber hnumeric
    obtain ⟨numbers, hnumbers, hsum, hcount, ⟨hminMem, hmin⟩, hmaxMem, hmax⟩ :=
      hbucket.numeric hnumeric
    simp only [hnumeric, if_true, hvalue, Option.getD_some]
    refine ⟨numbers ++ [number], ?_, ?_, ?_, ⟨?_, ?_⟩, ?_, ?_⟩
    · rw [Numbers, List.map_append, List.map_append, List.map_singleton, hnumbers, hvalue]
      rfl
    · rw [List.sum_append, hsum, List.sum_singleton]
    · rw [List.length_append, hcount]
      rfl
    · rcases min_choice bucket.minimum number with e | e
      · rw [e]
        exact List.mem_append_left _ hminMem
      · rw [e]
        exact List.mem_append_right _ (List.mem_singleton_self number)
    · intro other hother
      rcases List.mem_append.mp hother with hold | hnew
      · exact (min_le_left _ _).trans (hmin other hold)
      · rw [List.mem_singleton.mp hnew]
        exact min_le_right _ _
    · rcases max_choice bucket.maximum number with e | e
      · rw [e]
        exact List.mem_append_left _ hmaxMem
      · rw [e]
        exact List.mem_append_right _ (List.mem_singleton_self number)
    · intro other hother
      rcases List.mem_append.mp hother with hold | hnew
      · exact (hmax other hold).trans (le_max_left _ _)
      · rw [List.mem_singleton.mp hnew]
        exact le_max_right _ _

/-- Adding points to a bucket, from left to right. -/
theorem Accumulated.run {aggregation : BucketAggregation} {done rest : List RawTimeseriesPoint}
    {bucket : BucketAccumulator} {out : Option BucketAccumulator}
    (hbucket : Accumulated aggregation done bucket)
    (h : accumulate aggregation rest (some bucket) = .ok out) :
    ∃ last, out = some last ∧ Accumulated aggregation (done ++ rest) last := by
  induction rest generalizing done bucket with
  | nil =>
      cases h
      exact ⟨bucket, rfl, by rw [List.append_nil]; exact hbucket⟩
  | cons point rest ih =>
      rw [accumulate] at h
      cases hadd : addToBucket (some bucket) point aggregation with
      | error error =>
          rw [hadd] at h
          cases h
      | ok added =>
          rw [hadd] at h
          obtain ⟨last, hout, hlast⟩ := ih (hbucket.add hadd) h
          rw [List.append_assoc] at hlast
          exact ⟨last, hout, hlast⟩

/-- The value of a bucket is the aggregate of what it has seen. -/
theorem Accumulated.finish {aggregation : BucketAggregation} {points : List RawTimeseriesPoint}
    {bucket : BucketAccumulator} (h : Accumulated aggregation points bucket) :
    Aggregates points aggregation (finishBucket aggregation bucket) := by
  cases aggregation with
  | first =>
      obtain ⟨i, first, hfirst, -, hvalue⟩ := h.first
      rw [finishBucket, hvalue]
      exact .first hfirst
  | last =>
      obtain ⟨i, last, hlast, -, hvalue⟩ := h.last
      rw [finishBucket, hvalue]
      exact .last hlast
  | average =>
      obtain ⟨numbers, hnumbers, hsum, hcount, ⟨hmem, -⟩, -⟩ := h.numeric rfl
      rw [finishBucket, hsum, hcount]
      exact .average hnumbers (List.ne_nil_of_mem hmem)
  | maximum =>
      obtain ⟨numbers, hnumbers, -, -, -, hmem, hle⟩ := h.numeric rfl
      exact .maximum hnumbers hmem hle
  | minimum =>
      obtain ⟨numbers, hnumbers, -, -, ⟨hmem, hle⟩, -⟩ := h.numeric rfl
      exact .minimum hnumbers hmem hle

/-- The accumulator of a bucket computes the aggregate of its points, if there are any. -/
theorem accumulate_aggregates {aggregation : BucketAggregation}
    {points : List RawTimeseriesPoint} {out : Option BucketAccumulator}
    (h : accumulate aggregation points none = .ok out) (value : TimeseriesValue) :
    out.map (finishBucket aggregation) = some value ↔ Aggregates points aggregation value := by
  cases points with
  | nil =>
      cases h
      exact ⟨fun hvalue => (by cases hvalue), fun hvalue => absurd rfl hvalue.nonempty⟩
  | cons point rest =>
      rw [accumulate] at h
      cases hadd : addToBucket none point aggregation with
      | error error =>
          rw [hadd] at h
          cases h
      | ok added =>
          rw [hadd] at h
          obtain ⟨last, rfl, hlast⟩ := (accumulated_first hadd).run h
          have hfinish := hlast.finish
          rw [List.singleton_append] at hfinish
          constructor
          · intro hvalue
            rw [← Option.some.inj hvalue]
            exact hfinish
          · intro hvalue
            rw [Option.map_some, hfinish.unique hvalue]

/-! ## Gaps -/

section Gaps

variable (value : Nat → TimeseriesValue → Prop)

/-- The bucket has a value of its own. -/
def Occupied (i : Nat) : Prop := ∃ v, value i v

/-- The nearest occupied bucket in front of `i`. -/
def IsPrevious (i j : Nat) : Prop :=
  j < i ∧ Occupied value j ∧ ∀ k, j < k → k < i → ¬ Occupied value k

/-- The nearest occupied bucket behind `i`. -/
def IsNext (i j : Nat) : Prop :=
  i < j ∧ Occupied value j ∧ ∀ k, i < k → k < j → ¬ Occupied value k

/-- The closest occupied bucket, the one in front on a tie. -/
def IsClosest (i j : Nat) : Prop :=
  Occupied value j ∧ ∀ k, Occupied value k →
    Nat.dist i j < Nat.dist i k ∨ Nat.dist i j = Nat.dist i k ∧ j ≤ k

/-- The value an empty bucket takes over. -/
inductive FilledWith (i : Nat) : GapFillMethod → TimeseriesValue → Prop where
  | near {j : Nat} {v : TimeseriesValue} : IsClosest value i j → value j v → FilledWith i .near v
  | previous {j : Nat} {v : TimeseriesValue} :
      IsPrevious value i j → value j v → FilledWith i .previous v
  | next {j : Nat} {v : TimeseriesValue} : IsNext value i j → value j v → FilledWith i .next v
  | between {j k : Nat} {left right : TimeseriesValue} {a b : ℚ} :
      IsPrevious value i j → IsNext value i k → value j left → value k right →
      numericValue left = some a → numericValue right = some b →
      FilledWith i .linear (.double (.finite
        (a + (b - a) * (((i - j : Nat) : ℚ) / ((k - j : Nat) : ℚ)))))
  | outside {j : Nat} {v : TimeseriesValue} :
      (¬ ∃ k, IsPrevious value i k) ∨ (¬ ∃ k, IsNext value i k) →
      IsClosest value i j → value j v → FilledWith i .linear v

/-- The value of a bucket after the gaps are filled. -/
def Filled (method : GapFillMethod) (i : Nat) (v : TimeseriesValue) : Prop :=
  value i v ∨ ¬ Occupied value i ∧ FilledWith value i method v

/-- A bucket the value of `i` can come from. -/
def IsSource (method : GapFillMethod) (i j : Nat) : Prop :=
  Occupied value j ∧ (method = .previous → j ≤ i) ∧ (method = .next → i ≤ j)

end Gaps

variable {values : BucketValues} {i j k : Nat}

/-- The values a list of buckets has. -/
def valueOf (values : BucketValues) (i : Nat) (v : TimeseriesValue) : Prop :=
  valueAt values i = some v

theorem occupied_iff : Occupied (valueOf values) i ↔ (valueAt values i).isSome = true :=
  Option.isSome_iff_exists.symm

theorem not_occupied_iff : ¬ Occupied (valueOf values) i ↔ (valueAt values i).isSome = false := by
  rw [occupied_iff, Bool.not_eq_true]

theorem isPrevious_iff : IsPrevious (valueOf values) i j ↔ previousIndex values i = some j := by
  rw [previousIndex_eq_some, IsPrevious]
  simp only [occupied_iff, Bool.not_eq_true]

theorem isNext_iff : IsNext (valueOf values) i j ↔ nextIndex values i = some j := by
  rw [nextIndex_eq_some, IsNext]
  simp only [occupied_iff, Bool.not_eq_true]

/-- An occupied bucket in front is not behind the previous one. -/
theorem previous_of_occupied (hlt : k < i) (h : Occupied (valueOf values) k) :
    ∃ j, previousIndex values i = some j ∧ j < i ∧ k ≤ j := by
  cases hprevious : previousIndex values i with
  | none =>
      rw [occupied_iff, previousIndex_eq_none.mp hprevious k hlt] at h
      cases h
  | some j =>
      obtain ⟨hj, -, hnone⟩ := previousIndex_eq_some.mp hprevious
      refine ⟨j, rfl, hj, ?_⟩
      by_contra hgt
      rw [occupied_iff, hnone k (by omega) hlt] at h
      cases h

/-- An occupied bucket behind is not in front of the next one. -/
theorem next_of_occupied (hlt : i < k) (h : Occupied (valueOf values) k) :
    ∃ j, nextIndex values i = some j ∧ i < j ∧ j ≤ k := by
  cases hnext : nextIndex values i with
  | none =>
      rw [occupied_iff, nextIndex_eq_none.mp hnext k hlt] at h
      cases h
  | some j =>
      obtain ⟨hj, -, hnone⟩ := nextIndex_eq_some.mp hnext
      refine ⟨j, rfl, hj, ?_⟩
      by_contra hgt
      rw [occupied_iff, hnone k hlt (by omega)] at h
      cases h

/-- The bucket `nearAt` takes its value from. -/
def nearIndex (values : BucketValues) (index : Nat) : Option Nat :=
  match previousIndex values index, nextIndex values index with
  | none, none => none
  | none, some next => some next
  | some previous, none => some previous
  | some previous, some next =>
      if index - previous ≤ next - index then some previous else some next

/-- The nearest value is that of the nearest bucket. -/
theorem nearAt_eq (values : BucketValues) (i : Nat) :
    nearAt values i = (nearIndex values i).bind (valueAt values) := by
  rw [nearAt, nearIndex]
  cases previousIndex values i with
  | none =>
      cases nextIndex values i with
      | none => rfl
      | some next => rfl
  | some previous =>
      cases nextIndex values i with
      | none => rfl
      | some next =>
          show (if _ then _ else _ : Option TimeseriesValue) = (if _ then _ else _ : Option Nat).bind _
          split
          · rfl
          · rfl

theorem closest_unique (h : IsClosest (valueOf values) i j) (h' : IsClosest (valueOf values) i k) :
    j = k := by
  have hj := h.2 k h'.1
  have hk := h'.2 j h.1
  omega

/-- It is the closest occupied bucket. -/
theorem isClosest_of_near (hempty : ¬ Occupied (valueOf values) i)
    (h : nearIndex values i = some j) : IsClosest (valueOf values) i j := by
  have hside : ∀ k, Occupied (valueOf values) k → k < i ∨ i < k := by
    intro k hk
    rcases Nat.lt_trichotomy k i with hlt | rfl | hgt
    · exact Or.inl hlt
    · exact absurd hk hempty
    · exact Or.inr hgt
  rw [nearIndex] at h
  cases hprevious : previousIndex values i with
  | none =>
      cases hnext : nextIndex values i with
      | none =>
          rw [hprevious, hnext] at h
          cases h
      | some next =>
          rw [hprevious, hnext] at h
          obtain rfl := Option.some.inj h
          obtain ⟨hlt, hocc, -⟩ := isNext_iff.mpr hnext
          refine ⟨hocc, fun k hk => ?_⟩
          rcases hside k hk with hbefore | hafter
          · obtain ⟨p, hp, -⟩ := previous_of_occupied hbefore hk
            rw [hprevious] at hp
            cases hp
          · obtain ⟨n, hn, -, hle⟩ := next_of_occupied hafter hk
            rw [hnext] at hn
            obtain rfl := Option.some.inj hn
            simp only [Nat.dist]
            omega
  | some previous =>
      obtain ⟨hlt, hocc, -⟩ := isPrevious_iff.mpr hprevious
      cases hnext : nextIndex values i with
      | none =>
          rw [hprevious, hnext] at h
          obtain rfl := Option.some.inj h
          refine ⟨hocc, fun k hk => ?_⟩
          rcases hside k hk with hbefore | hafter
          · obtain ⟨p, hp, -, hle⟩ := previous_of_occupied hbefore hk
            rw [hprevious] at hp
            obtain rfl := Option.some.inj hp
            simp only [Nat.dist]
            omega
          · obtain ⟨n, hn, -⟩ := next_of_occupied hafter hk
            rw [hnext] at hn
            cases hn
      | some next =>
          rw [hprevious, hnext] at h
          obtain ⟨hgt, hocc', -⟩ := isNext_iff.mpr hnext
          -- the nearer of the two, and nothing nearer on either side
          have hfar : ∀ k, Occupied (valueOf values) k → k ≤ previous ∨ next ≤ k := by
            intro k hk
            rcases hside k hk with hbefore | hafter
            · obtain ⟨p, hp, -, hle⟩ := previous_of_occupied hbefore hk
              rw [hprevious] at hp
              obtain rfl := Option.some.inj hp
              exact Or.inl hle
            · obtain ⟨n, hn, -, hle⟩ := next_of_occupied hafter hk
              rw [hnext] at hn
              obtain rfl := Option.some.inj hn
              exact Or.inr hle
          simp only at h
          split at h
          · obtain rfl := Option.some.inj h
            refine ⟨hocc, fun k hk => ?_⟩
            have hk' := hfar k hk
            simp only [Nat.dist]
            omega
          · obtain rfl := Option.some.inj h
            refine ⟨hocc', fun k hk => ?_⟩
            have hk' := hfar k hk
            simp only [Nat.dist]
            omega

/-- Without one there is no occupied bucket at all. -/
theorem near_of_occupied (hempty : ¬ Occupied (valueOf values) i)
    (h : Occupied (valueOf values) k) : ∃ j, nearIndex values i = some j := by
  have hor : (∃ j, previousIndex values i = some j) ∨ ∃ j, nextIndex values i = some j := by
    rcases Nat.lt_trichotomy k i with hlt | rfl | hgt
    · obtain ⟨j, hj, -⟩ := previous_of_occupied hlt h
      exact Or.inl ⟨j, hj⟩
    · exact absurd h hempty
    · obtain ⟨j, hj, -⟩ := next_of_occupied hgt h
      exact Or.inr ⟨j, hj⟩
  rw [nearIndex]
  cases hprevious : previousIndex values i with
  | none =>
      cases hnext : nextIndex values i with
      | none =>
          rw [hprevious, hnext] at hor
          rcases hor with ⟨j, hj⟩ | ⟨j, hj⟩
          · cases hj
          · cases hj
      | some next => exact ⟨next, rfl⟩
  | some previous =>
      cases nextIndex values i with
      | none => exact ⟨previous, rfl⟩
      | some next =>
          by_cases hle : i - previous ≤ next - i
          · exact ⟨previous, if_pos hle⟩
          · exact ⟨next, if_neg hle⟩

/-- `nearAt` gives an empty bucket the value of the closest one. -/
theorem nearAt_eq_some (hempty : ¬ Occupied (valueOf values) i) {v : TimeseriesValue} :
    nearAt values i = some v ↔ ∃ j, IsClosest (valueOf values) i j ∧ valueOf values j v := by
  rw [nearAt_eq]
  constructor
  · intro h
    obtain ⟨j, hj, hv⟩ := Option.bind_eq_some_iff.mp h
    exact ⟨j, isClosest_of_near hempty hj, hv⟩
  · rintro ⟨j, hclosest, hv⟩
    obtain ⟨k, hk⟩ := near_of_occupied hempty hclosest.1
    rw [hk, closest_unique (isClosest_of_near hempty hk) hclosest]
    exact hv

/-- Every bucket takes over the previous value. -/
theorem fillPrevious_valueAt (h : i < values.length) :
    valueAt (fillPrevious none values) i =
      (valueAt values i).or ((previousIndex values i).bind (valueAt values)) := by
  induction i with
  | zero =>
      rw [fillPrevious_zero, previousIndex]
      exact Option.or_none.symm
  | succ i ih =>
      rw [fillPrevious_succ none h, ih (by omega), previousIndex_succ]
      cases hvalue : valueAt values i with
      | none => rfl
      | some v =>
          rw [Option.some_or]
          simp [hvalue]

theorem valueAt_reverse (h : i < values.length) :
    valueAt values.reverse i = valueAt values (values.length - 1 - i) := by
  rw [valueAt, valueAt, List.getElem?_reverse h]

/-- What is in front of a bucket in the reversed list is behind it in the list. -/
theorem previousIndex_reverse (h : i < values.length) :
    previousIndex values.reverse (values.length - 1 - i) =
      (nextIndex values i).map (values.length - 1 - ·) := by
  cases hnext : nextIndex values i with
  | none =>
      rw [Option.map_none, previousIndex_eq_none]
      intro k hk
      rw [valueAt_reverse (by omega)]
      exact nextIndex_eq_none.mp hnext _ (by omega)
  | some next =>
      obtain ⟨hlt, hsome, hnone⟩ := nextIndex_eq_some.mp hnext
      have hlength := lt_of_valueAt hsome
      rw [Option.map_some, previousIndex_eq_some]
      refine ⟨by omega, ?_, fun k hk hk' => ?_⟩
      · rw [valueAt_reverse (by omega), show values.length - 1 - (values.length - 1 - next) = next
          by omega]
        exact hsome
      · rw [valueAt_reverse (by omega)]
        exact hnone _ (by omega) (by omega)

/-- Filling from the back, every bucket takes over the next value. -/
theorem fillNext_valueAt (h : i < values.length) :
    valueAt (fillPrevious none values.reverse).reverse i =
      (valueAt values i).or ((nextIndex values i).bind (valueAt values)) := by
  have hlength : (fillPrevious none values.reverse).length = values.length := by
    rw [fillPrevious_length, List.length_reverse]
  rw [valueAt_reverse (by rw [hlength]; exact h), hlength,
    fillPrevious_valueAt (by rw [List.length_reverse]; omega), valueAt_reverse (by omega),
    previousIndex_reverse h, show values.length - 1 - (values.length - 1 - i) = i by omega]
  cases hnext : nextIndex values i with
  | none => rfl
  | some next =>
      obtain ⟨-, hsome, -⟩ := nextIndex_eq_some.mp hnext
      have hlt := lt_of_valueAt hsome
      rw [Option.map_some, Option.bind_some, Option.bind_some, valueAt_reverse (by omega),
        show values.length - 1 - (values.length - 1 - next) = next by omega]

/-- `linearAt` gives an empty bucket the point on the line between its neighbours, or
    the closest value where it lacks one. -/
theorem linearAt_eq_some (hempty : ¬ Occupied (valueOf values) i) {filled : Option TimeseriesValue}
    (h : linearAt values i = .ok filled) (v : TimeseriesValue) :
    filled = some v ↔ FilledWith (valueOf values) i .linear v := by
  by_cases hinside : (∃ j, IsPrevious (valueOf values) i j) ∧ ∃ k, IsNext (valueOf values) i k
  · obtain ⟨⟨left, hleft⟩, right, hright⟩ := hinside
    have hline := linearAt_between values (isPrevious_iff.mp hleft) (isNext_iff.mp hright)
    obtain ⟨-, ⟨leftValue, hleftValue⟩, -⟩ := id hleft
    obtain ⟨-, ⟨rightValue, hrightValue⟩, -⟩ := id hright
    have hleftAt : valueAt values left = some leftValue := hleftValue
    have hrightAt : valueAt values right = some rightValue := hrightValue
    rw [hline, hleftAt, hrightAt, Option.bind_some, Option.bind_some] at h
    cases ha : numericValue leftValue with
    | none =>
        rw [ha] at h
        cases h
    | some a =>
        cases hb : numericValue rightValue with
        | none =>
            rw [ha, hb] at h
            cases h
        | some b =>
            rw [ha, hb] at h
            obtain rfl := Except.ok.inj h
            have hfilled := FilledWith.between hleft hright hleftValue hrightValue ha hb
            constructor
            · intro hv
              rw [← Option.some.inj hv]
              exact hfilled
            · intro hv
              -- the neighbours and their values are the only ones
              cases hv with
              | between hj hk hjv hkv hja hkb =>
                  obtain rfl := Option.some.inj ((isPrevious_iff.mp hj).symm.trans
                    (isPrevious_iff.mp hleft))
                  obtain rfl := Option.some.inj ((isNext_iff.mp hk).symm.trans
                    (isNext_iff.mp hright))
                  obtain rfl := Option.some.inj (Eq.trans (Eq.symm hjv) hleftValue)
                  obtain rfl := Option.some.inj (Eq.trans (Eq.symm hkv) hrightValue)
                  obtain rfl := Option.some.inj (hja.symm.trans ha)
                  obtain rfl := Option.some.inj (hkb.symm.trans hb)
                  rfl
              | outside hedge =>
                  rcases hedge with hno | hno
                  · exact absurd ⟨left, hleft⟩ hno
                  · exact absurd ⟨right, hright⟩ hno
  · have hedge : (¬ ∃ j, IsPrevious (valueOf values) i j) ∨ ¬ ∃ k, IsNext (valueOf values) i k :=
      not_and_or.mp hinside
    have hnone : previousIndex values i = none ∨ nextIndex values i = none := by
      refine hedge.imp (fun hno => ?_) fun hno => ?_
      · exact Option.eq_none_iff_forall_ne_some.mpr fun j hj => hno ⟨j, isPrevious_iff.mpr hj⟩
      · exact Option.eq_none_iff_forall_ne_some.mpr fun j hj => hno ⟨j, isNext_iff.mpr hj⟩
    rw [linearAt_edge values hnone] at h
    obtain rfl := Except.ok.inj h
    rw [nearAt_eq_some hempty]
    constructor
    · rintro ⟨j, hclosest, hv⟩
      exact .outside hedge hclosest hv
    · intro hv
      cases hv with
      | between hj hk =>
          rcases hedge with hno | hno
          · exact absurd ⟨_, hj⟩ hno
          · exact absurd ⟨_, hk⟩ hno
      | outside _ hclosest hv => exact ⟨_, hclosest, hv⟩

/-- A value of its own, or a neighbour's: how the two scans fill a bucket. -/
theorem or_neighbour {method : GapFillMethod} {neighbour : Option Nat}
    (hfilled : ∀ v, FilledWith (valueOf values) i method v ↔
      ∃ j, neighbour = some j ∧ valueOf values j v) (v : TimeseriesValue) :
    (valueAt values i).or (neighbour.bind (valueAt values)) = some v ↔
      Filled (valueOf values) method i v := by
  rw [Filled, hfilled]
  cases hvalue : valueAt values i with
  | some own =>
      have hocc : Occupied (valueOf values) i := ⟨own, hvalue⟩
      rw [Option.some_or]
      constructor
      · intro h
        exact Or.inl (hvalue.trans h)
      · rintro (h | ⟨hempty, -⟩)
        · exact hvalue.symm.trans h
        · exact absurd hocc hempty
  | none =>
      have hempty : ¬ Occupied (valueOf values) i := by
        rw [not_occupied_iff, hvalue]
        rfl
      rw [Option.none_or, Option.bind_eq_some_iff]
      constructor
      · intro h
        exact Or.inr ⟨hempty, h⟩
      · rintro (h | ⟨-, h⟩)
        · exact absurd ⟨v, h⟩ hempty
        · exact h

/-- The two fills that look at the whole column. -/
theorem fillFrom_reference {method : GapFillMethod}
    {fill : Nat → Except String (Option TimeseriesValue)} {filled : BucketValues}
    (h : fillFrom fill 0 values = .ok filled)
    (hfill : ∀ i, ¬ Occupied (valueOf values) i → ∀ out, fill i = .ok out →
      ∀ v, out = some v ↔ FilledWith (valueOf values) i method v) (hi : i < values.length)
    (v : TimeseriesValue) :
    valueAt filled i = some v ↔ Filled (valueOf values) method i v := by
  have hbucket := (fillFrom_ok.mp h).2 i hi
  rw [Nat.zero_add] at hbucket
  by_cases hocc : Occupied (valueOf values) i
  · rw [if_pos (occupied_iff.mp hocc)] at hbucket
    rw [← Except.ok.inj hbucket]
    exact ⟨Or.inl, fun h => h.resolve_right fun hempty => hempty.1 hocc⟩
  · have hsome : ¬ (valueAt values i).isSome = true := fun hsome => hocc (occupied_iff.mpr hsome)
    rw [if_neg hsome] at hbucket
    rw [hfill i hocc _ hbucket v]
    exact ⟨fun h => Or.inr ⟨hocc, h⟩, fun h => (h.resolve_left fun hown => hocc ⟨v, hown⟩).2⟩

/-- Filling the gaps gives every bucket its reference value. -/
theorem fillValues_reference {method : GapFillMethod} {filled : BucketValues}
    (h : fillValues values method = .ok filled) (hi : i < values.length) (v : TimeseriesValue) :
    valueAt filled i = some v ↔ Filled (valueOf values) method i v := by
  cases method with
  | near =>
      -- bucket by bucket, from the unfilled values
      refine fillFrom_reference h (fun i hempty out hout v => ?_) hi v
      rw [← Except.ok.inj hout, nearAt_eq_some hempty]
      constructor
      · rintro ⟨j, hclosest, hv⟩
        exact .near hclosest hv
      · intro hv
        cases hv with
        | near hclosest hv => exact ⟨_, hclosest, hv⟩
  | previous =>
      obtain rfl := Except.ok.inj h
      -- one pass that carries the last value seen
      rw [fillPrevious_valueAt hi]
      refine or_neighbour (fun v => ?_) v
      simp only [← isPrevious_iff]
      constructor
      · intro hv
        cases hv with
        | previous hprevious hv => exact ⟨_, hprevious, hv⟩
      · rintro ⟨j, hprevious, hv⟩
        exact .previous hprevious hv
  | next =>
      obtain rfl := Except.ok.inj h
      -- the same pass from the end
      rw [fillNext_valueAt hi]
      refine or_neighbour (fun v => ?_) v
      simp only [← isNext_iff]
      constructor
      · intro hv
        cases hv with
        | next hnext hv => exact ⟨_, hnext, hv⟩
      · rintro ⟨j, hnext, hv⟩
        exact .next hnext hv
  | linear => exact fillFrom_reference h (fun i hempty out hout => linearAt_eq_some hempty hout) hi v

/-- Filling keeps the length of a column. -/
theorem fillValues_length {method : GapFillMethod} {filled : BucketValues}
    (h : fillValues values method = .ok filled) : filled.length = values.length := by
  cases method with
  | near => exact (fillFrom_ok.mp h).1
  | previous =>
      obtain rfl := Except.ok.inj h
      exact fillPrevious_length none values
  | next =>
      obtain rfl := Except.ok.inj h
      rw [List.length_reverse, fillPrevious_length, List.length_reverse]
  | linear => exact (fillFrom_ok.mp h).1

/-- A bucket stays empty only where it has no source. -/
theorem fillValues_missing {method : GapFillMethod} {filled : BucketValues}
    (h : fillValues values method = .ok filled) (hi : i < values.length)
    (hmissing : valueAt filled i = none) (j : Nat) : ¬ IsSource (valueOf values) method i j := by
  have hnone : ∀ v, ¬ Filled (valueOf values) method i v := by
    intro v hv
    rw [(fillValues_reference h hi v).mpr hv] at hmissing
    cases hmissing
  have hempty : ¬ Occupied (valueOf values) i := fun ⟨v, hv⟩ => hnone v (Or.inl hv)
  rintro ⟨hocc, hprevious, hnext⟩
  -- as soon as one bucket has a value, one of them is the closest
  have hclosest : ∃ k v, IsClosest (valueOf values) i k ∧ valueOf values k v := by
    obtain ⟨k, hk⟩ := near_of_occupied hempty hocc
    obtain ⟨v, hv⟩ := (isClosest_of_near hempty hk).1
    exact ⟨k, v, isClosest_of_near hempty hk, hv⟩
  have hne : j ≠ i := fun e => hempty (e ▸ hocc)
  cases method with
  | near =>
      obtain ⟨k, v, hk, hv⟩ := hclosest
      exact hnone v (Or.inr ⟨hempty, .near hk hv⟩)
  | previous =>
      have hle := hprevious rfl
      have hlt : j < i := by omega
      obtain ⟨k, hk, -⟩ := previous_of_occupied hlt hocc
      obtain ⟨-, ⟨v, hv⟩, -⟩ := id (isPrevious_iff.mpr hk)
      exact hnone v (Or.inr ⟨hempty, .previous (isPrevious_iff.mpr hk) hv⟩)
  | next =>
      have hle := hnext rfl
      have hlt : i < j := by omega
      obtain ⟨k, hk, -⟩ := next_of_occupied hlt hocc
      obtain ⟨-, ⟨v, hv⟩, -⟩ := id (isNext_iff.mpr hk)
      exact hnone v (Or.inr ⟨hempty, .next (isNext_iff.mpr hk) hv⟩)
  | linear =>
      by_cases hinside : (∃ k, IsPrevious (valueOf values) i k) ∧ ∃ k, IsNext (valueOf values) i k
      · -- between two neighbours the line has a value
        obtain ⟨⟨left, hleft⟩, right, hright⟩ := hinside
        have hbucket := (fillFrom_ok.mp h).2 i hi
        rw [Nat.zero_add, if_neg (fun hsome => hempty (occupied_iff.mpr hsome)), hmissing,
          linearAt_between values (isPrevious_iff.mp hleft) (isNext_iff.mp hright)] at hbucket
        split at hbucket
        · cases hbucket
        · cases hbucket
      · obtain ⟨k, v, hk, hv⟩ := hclosest
        exact hnone v (Or.inr ⟨hempty, .outside (not_and_or.mp hinside) hk hv⟩)

end BucketReference
