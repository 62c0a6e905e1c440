import Mathlib.Order.Bounds.Basic
import TimeSeriesEngine.BucketArithmetic

/-!
# The inferred interval

`inferBucketInterval` looks at neighbours in time only.  Between sorted times the
smallest gap of neighbours is the smallest difference at all, so the result depends on
which times a sequence has and on nothing else.

* `Minimum.observeGaps` — the loop over sorted times takes in all their differences;
* `inferred_minimum` — the result is the smallest difference of a configured sequence;
* `inferred_interval_least` — so on 64-bit times, in every order of the points.
-/

namespace IntervalInference

open TseTypes KeyedTable OrderedSeries SeqAlignment RangeAlignment MachineIntegers BucketArithmetic

/-! ## The smallest so far -/

/-- The smallest element of a set of numbers, if the set has an element. -/
def Minimum (smallest : Option Int) (numbers : Set Int) : Prop :=
  match smallest with
  | none => numbers = ∅
  | some least => IsLeast numbers least

/-- A minimum is the least number. -/
theorem Minimum.eq_some {smallest : Option Int} {numbers : Set Int} (h : Minimum smallest numbers)
    (number : Int) : smallest = some number ↔ IsLeast numbers number := by
  cases smallest with
  | none =>
      have hempty : numbers = ∅ := h
      refine ⟨nofun, fun hleast => ?_⟩
      rw [hempty] at hleast
      exact absurd hleast.1 (Set.notMem_empty number)
  | some least =>
      refine ⟨fun heq => ?_, fun hleast => congrArg some (IsLeast.unique h hleast)⟩
      rw [← Option.some.inj heq]
      exact h

/-- Without a minimum there are no numbers. -/
theorem Minimum.eq_none {smallest : Option Int} {numbers : Set Int} (h : Minimum smallest numbers) :
    smallest = none ↔ numbers = ∅ := by
  cases smallest with
  | none => exact iff_of_true rfl h
  | some least =>
      refine ⟨nofun, fun hempty => ?_⟩
      have hleast : IsLeast numbers least := h
      rw [hempty] at hleast
      exact absurd hleast.1 (Set.notMem_empty least)

theorem Minimum.unique {smallest smallest' : Option Int} {numbers : Set Int}
    (h : Minimum smallest numbers) (h' : Minimum smallest' numbers) : smallest = smallest' := by
  cases smallest' with
  | none => exact h.eq_none.mpr h'
  | some least => exact (h.eq_some least).mpr h'

/-- More numbers, none of them below all of the former ones. -/
theorem Minimum.mono {smallest : Option Int} {numbers more : Set Int}
    (h : Minimum smallest numbers) (hsub : numbers ⊆ more)
    (hcovered : ∀ number ∈ more, ∃ other ∈ numbers, other ≤ number) : Minimum smallest more := by
  cases smallest with
  | none =>
      have hempty : numbers = ∅ := h
      refine Set.eq_empty_iff_forall_notMem.mpr fun number hnumber => ?_
      obtain ⟨other, hother, -⟩ := hcovered number hnumber
      rw [hempty] at hother
      exact Set.notMem_empty other hother
  | some least =>
      obtain ⟨hmem, hlower⟩ := show IsLeast numbers least from h
      refine ⟨hsub hmem, fun number hnumber => ?_⟩
      obtain ⟨other, hother, hle⟩ := hcovered number hnumber
      exact le_trans (hlower hother) hle

/-- One gap, if it counts. -/
def gapSet (gap : Int) : Set Int := {number | number = gap ∧ gap ≠ 0 ∧ gap ≤ int64Max}

/-- Observing a gap adds it to the numbers. -/
theorem Minimum.observeGap {smallest : Option Int} {numbers : Set Int}
    (h : Minimum smallest numbers) (previous current : Timestamp) :
    Minimum (observeGap smallest previous current) (numbers ∪ gapSet (current - previous)) := by
  by_cases hskip : current - previous = 0 ∨ int64Max < current - previous
  · -- a gap that does not count
    have hnone : gapSet (current - previous) = ∅ :=
      Set.eq_empty_iff_forall_notMem.mpr fun number hnumber =>
        hskip.elim hnumber.2.1 (not_lt.mpr hnumber.2.2)
    simp only [SeqAlignment.observeGap, if_pos hskip, hnone, Set.union_empty]
    exact h
  · obtain ⟨hzero, hfits⟩ := not_or.mp hskip
    have hone : gapSet (current - previous) = {current - previous} :=
      Set.ext fun number => and_iff_left ⟨hzero, not_lt.mp hfits⟩
    simp only [SeqAlignment.observeGap, if_neg hskip, hone]
    cases smallest with
    | none =>
        have hempty : numbers = ∅ := h
        rw [hempty, Set.empty_union]
        exact isLeast_singleton
    | some least =>
        have hleast : IsLeast numbers least := h
        have hunion := hleast.union (@isLeast_singleton Int _ (current - previous))
        by_cases hlt : current - previous < least
        · simp only [if_pos hlt]
          rw [min_eq_right (le_of_lt hlt)] at hunion
          exact hunion
        · simp only [if_neg hlt]
          rw [min_eq_left (not_lt.mp hlt)] at hunion
          exact hunion

/-! ## The times of one sequence -/

/-- The positive differences of two of the times that a signed 64-bit number holds. -/
def Differences (times : List Timestamp) : Set Int :=
  {number | 0 < number ∧ number ≤ int64Max ∧ ∃ a ∈ times, ∃ b ∈ times, b - a = number}

theorem differences_congr {times times' : List Timestamp} (h : ∀ t, t ∈ times ↔ t ∈ times') :
    Differences times = Differences times' := by
  unfold Differences
  simp only [h]

/-- One time alone has no difference. -/
theorem differences_short {times : List Timestamp} (h : times.length < 2) :
    Differences times = ∅ := by
  refine Set.eq_empty_iff_forall_notMem.mpr fun number hnumber => ?_
  obtain ⟨hpos, -, a, ha, b, hb, rfl⟩ := hnumber
  match times, h with
  | [], _ => cases ha
  | [time], _ =>
      rw [List.mem_singleton.mp ha, List.mem_singleton.mp hb, Int.sub_self] at hpos
      exact Int.lt_irrefl 0 hpos

/-- A new earliest time: what it adds is not below the gap to its neighbour, or is there
    already when the two are equal. -/
theorem differences_cons {previous current : Timestamp} {rest : List Timestamp}
    (hsorted : (previous :: current :: rest).Pairwise (· ≤ ·)) {number : Int}
    (h : number ∈ Differences (previous :: current :: rest)) :
    ∃ other ∈ gapSet (current - previous) ∪ Differences (current :: rest), other ≤ number := by
  obtain ⟨hpos, hfits, a, ha, b, hb, rfl⟩ := h
  obtain ⟨hfirst, hrest⟩ := List.pairwise_cons.mp hsorted
  have hcurrent := hfirst current (List.mem_cons_self ..)
  rcases List.mem_cons.mp hb with rfl | hlater
  · -- nothing comes before the earliest time
    rcases List.mem_cons.mp ha with rfl | ha
    · omega
    · have hle := hfirst a ha
      dsimp only [Timestamp] at *
      omega
  rcases List.mem_cons.mp ha with rfl | hsecond
  · by_cases hequal : current = a
    · rw [← hequal] at hpos hfits ⊢
      exact ⟨_, Or.inr ⟨hpos, hfits, current, List.mem_cons_self .., b, hlater, rfl⟩, le_refl _⟩
    · have hle : current ≤ b := by
        rcases List.mem_cons.mp hlater with heq | hlast
        · exact le_of_eq heq.symm
        · exact (List.pairwise_cons.mp hrest).1 b hlast
      dsimp only [Timestamp] at *
      exact ⟨current - a, Or.inl ⟨rfl, by omega, by omega⟩, by omega⟩
  · exact ⟨b - a, Or.inr ⟨hpos, hfits, a, hsecond, b, hlater, rfl⟩, le_refl _⟩

/-- **The loop over sorted times** takes in all their differences. -/
theorem Minimum.observeGaps {times : List Timestamp} (hsorted : times.Pairwise (· ≤ ·))
    {smallest : Option Int} {numbers : Set Int} (h : Minimum smallest numbers) :
    Minimum (observeGaps times smallest) (numbers ∪ Differences times) := by
  induction times generalizing smallest numbers with
  | nil =>
      rw [differences_short (by decide), Set.union_empty]
      exact h
  | cons previous rest ih =>
      cases rest with
      | nil =>
          rw [differences_short (show [previous].length < 2 from Nat.lt_succ_self 1), Set.union_empty]
          exact h
      | cons current rest =>
          have hcurrent := (List.pairwise_cons.mp hsorted).1 current (List.mem_cons_self ..)
          have hloop := ih (List.pairwise_cons.mp hsorted).2 (h.observeGap previous current)
          rw [SeqAlignment.observeGaps]
          refine hloop.mono ?_ ?_
          · rintro number ((hnumber | ⟨rfl, hzero, hfits⟩) | ⟨hpos, hfits, a, ha, b, hb, heq⟩)
            · exact Or.inl hnumber
            · refine Or.inr ⟨?_, hfits, previous, List.mem_cons_self .., current,
                List.mem_cons_of_mem _ (List.mem_cons_self ..), rfl⟩
              exact lt_of_le_of_ne (Int.sub_nonneg_of_le hcurrent) (Ne.symm hzero)
            · exact Or.inr ⟨hpos, hfits, a, List.mem_cons_of_mem _ ha, b,
                List.mem_cons_of_mem _ hb, heq⟩
          · rintro number (hnumber | hnumber)
            · exact ⟨number, Or.inl (Or.inl hnumber), le_refl _⟩
            · obtain ⟨other, hother | hother, hle⟩ := differences_cons hsorted hnumber
              · exact ⟨other, Or.inl (Or.inr hother), hle⟩
              · exact ⟨other, Or.inr hother, hle⟩

/-- Sorted or not, the loop runs over the times of the points. -/
theorem mem_gapTimes {points : List RawTimeseriesPoint} {t : Timestamp} :
    t ∈ gapTimes points ↔ t ∈ points.map RawTimeseriesPoint.time := by
  rw [gapTimes]
  split
  · exact Iff.rfl
  · exact mem_sortUnique_self

/-- The fast path for sorted points gives what sorting them would give. -/
theorem fast_path_agrees {points : List RawTimeseriesPoint}
    (hsorted : timesSorted (points.map RawTimeseriesPoint.time) = true) :
    observeGaps (points.map RawTimeseriesPoint.time) none =
      observeGaps (sortUnique (fun time => time) (points.map RawTimeseriesPoint.time)) none := by
  have hnone : Minimum none ∅ := rfl
  have hfast := hnone.observeGaps (pairwise_of_timesSorted hsorted)
  have hslow := hnone.observeGaps
    ((ascending_sortUnique (fun time => time) (points.map RawTimeseriesPoint.time)).imp le_of_lt)
  rw [differences_congr fun t => mem_sortUnique_self] at hslow
  exact hfast.unique hslow

/-! ## All configured sequences -/

/-- The differences that count: of two points of one configured sequence. -/
def GapsOf (data : WindowData) (sequences : List SequenceAlignmentConfig) : Set Int :=
  {number | ∃ sequence ∈ sequences, ∃ points,
    data.sequenceValues.find sequence.sequenceId = some points ∧
      number ∈ Differences (points.map RawTimeseriesPoint.time)}

/-- One sequence adds its gaps. -/
theorem Minimum.gapStep {data : WindowData} {smallest : Option Int} {numbers : Set Int}
    (h : Minimum smallest numbers) (sequence : SequenceAlignmentConfig) :
    Minimum (gapStep data smallest sequence) (numbers ∪ GapsOf data [sequence]) := by
  have hone : GapsOf data [sequence] = {number | ∃ points,
      data.sequenceValues.find sequence.sequenceId = some points ∧
        number ∈ Differences (points.map RawTimeseriesPoint.time)} := by
    unfold GapsOf
    simp only [List.mem_singleton, exists_eq_left]
  rw [hone, RangeAlignment.gapStep]
  cases hfind : data.sequenceValues.find sequence.sequenceId with
  | none =>
      simp only [reduceCtorEq, false_and, exists_false, Set.ofPred_false, Set.union_empty]
      exact h
  | some points =>
      simp only [Option.some.injEq, exists_eq_left', Set.ofPred_mem_eq]
      by_cases hshort : points.length < 2
      · rw [if_pos hshort, differences_short (by rwa [List.length_map]), Set.union_empty]
        exact h
      · rw [if_neg hshort, ← differences_congr fun t => mem_gapTimes]
        exact h.observeGaps (pairwise_of_timesSorted (timesSorted_gapTimes points))

/-- **The result is the smallest difference** of a configured sequence. -/
theorem inferred_minimum (data : WindowData) (sequences : List SequenceAlignmentConfig) :
    Minimum (inferBucketInterval data sequences) (GapsOf data sequences) := by
  have hloop : ∀ (sequences : List SequenceAlignmentConfig) (smallest : Option Int)
      (numbers : Set Int), Minimum smallest numbers →
        Minimum (sequences.foldl (RangeAlignment.gapStep data) smallest)
          (numbers ∪ GapsOf data sequences) := by
    intro sequences
    induction sequences with
    | nil =>
        intro smallest numbers h
        have hnone : GapsOf data [] = ∅ :=
          Set.eq_empty_iff_forall_notMem.mpr fun number ⟨_, hmem, _⟩ =>
            absurd hmem List.not_mem_nil
        rw [hnone, Set.union_empty]
        exact h
    | cons sequence sequences ih =>
        intro smallest numbers h
        have hsplit : GapsOf data (sequence :: sequences) =
            GapsOf data [sequence] ∪ GapsOf data sequences := by
          ext number
          simp only [GapsOf, Set.mem_union, Set.mem_ofPred_eq, List.mem_cons, List.not_mem_nil,
            or_false, or_and_right, exists_or]
        rw [List.foldl_cons, hsplit, ← Set.union_assoc]
        exact ih _ _ (h.gapStep sequence)
  have hrun := hloop sequences none ∅ rfl
  rw [Set.empty_union] at hrun
  exact hrun

/-! ## The machine's answer -/

/-- Every point's time is a 64-bit value. -/
def Times64 (data : WindowData) : Prop :=
  ∀ s points, data.sequenceValues.find s = some points → ∀ point ∈ points, Signed 64 point.time

/-- Each sequence has the same points, in any order. -/
def SamePoints (data data' : WindowData) : Prop :=
  ∀ s, Option.Rel List.Perm (data.sequenceValues.find s) (data'.sequenceValues.find s)

/-- The gaps do not depend on the order of the points. -/
theorem gapsOf_samePoints {data data' : WindowData} (h : SamePoints data data')
    (sequences : List SequenceAlignmentConfig) :
    GapsOf data' sequences = GapsOf data sequences := by
  refine Set.ext fun number => exists_congr fun sequence => and_congr_right fun _ => ?_
  have hsame := h sequence.sequenceId
  revert hsame
  generalize data.sequenceValues.find sequence.sequenceId = before
  generalize data'.sequenceValues.find sequence.sequenceId = after
  intro hsame
  cases hsame with
  | none => exact Iff.rfl
  | some hperm =>
      simp only [Option.some.injEq, exists_eq_left']
      rw [differences_congr fun t => (hperm.map RawTimeseriesPoint.time).mem_iff]

theorem Times64.samePoints {data data' : WindowData} (h : Times64 data)
    (hsame : SamePoints data data') : Times64 data' := by
  intro s points hfind point hpoint
  have hrel := hsame s
  rw [hfind] at hrel
  cases hbefore : data.sequenceValues.find s with
  | none =>
      rw [hbefore] at hrel
      cases hrel
  | some points' =>
      rw [hbefore] at hrel
      cases hrel with
      | some hperm => exact h s points' hbefore point (hperm.mem_iff.mpr hpoint)

/-- The wrapping subtraction of the source is exact between sorted times. -/
theorem inferBucketInterval64_exact {data : WindowData} (h : Times64 data)
    (sequences : List SequenceAlignmentConfig) :
    inferBucketInterval64 data sequences = inferBucketInterval data sequences := by
  -- the window's own bounds play no part
  have hdata : Data64 { data with windowStartTime := 0, windowEndTime := 0 } :=
    ⟨show Signed 64 0 by decide, show Signed 64 0 by decide, h⟩
  exact (inferBucketInterval64_eq hdata sequences).1

/-- **THE INFERRED INTERVAL** is the smallest positive difference up to `INT64_MAX`
    between two times of one configured sequence, nothing if there is none, and the same
    for every order of the points. -/
theorem inferred_interval_least {data : WindowData} (h : Times64 data)
    (sequences : List SequenceAlignmentConfig) :
    (∀ interval, inferBucketInterval64 data sequences = some interval ↔
      IsLeast (GapsOf data sequences) interval) ∧
    (inferBucketInterval64 data sequences = none ↔ GapsOf data sequences = ∅) ∧
    ∀ data', SamePoints data data' →
      inferBucketInterval64 data' sequences = inferBucketInterval64 data sequences := by
  have hminimum := inferred_minimum data sequences
  rw [inferBucketInterval64_exact h]
  refine ⟨hminimum.eq_some, hminimum.eq_none, fun data' hsame => ?_⟩
  rw [inferBucketInterval64_exact (h.samePoints hsame)]
  have hminimum' := inferred_minimum data' sequences
  rw [gapsOf_samePoints hsame] at hminimum'
  exact hminimum'.unique hminimum

/-- One sequence at the two ends of the 64-bit range and twice at 5, out of order. -/
def scattered : WindowData where
  sequenceValues := put "s" [⟨5, "s", .int64 1, ""⟩, ⟨int64Max, "s", .int64 2, ""⟩,
    ⟨int64Min, "s", .int64 3, ""⟩, ⟨5, "s", .int64 4, ""⟩] KeyedTable.empty

/-- Two points near the ends of the range of times. -/
theorem inferred_interval_least_scattered :
    Times64 scattered ∧
      IsLeast (GapsOf scattered [{ sequenceId := "s" }]) (int64Max - 5) := by
  have htimes : Times64 scattered := by
    intro s points hfind
    by_cases hs : s = "s"
    · subst hs
      rw [scattered, find_put_self] at hfind
      rw [← Option.some.inj hfind]
      decide
    · rw [scattered, find_put_of_ne hs] at hfind
      cases hfind
  exact ⟨htimes, ((inferred_interval_least htimes [{ sequenceId := "s" }]).1 _).mp (by decide +kernel)⟩

end IntervalInference
