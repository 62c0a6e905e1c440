import TimeSeriesEngine.SequenceWindow

/-!
# What a hot sequence stands for

The representation of a `SequenceWindow` has one meaning, its `content`: the
live vector overlaid with the late points.  `Valid` is the representation
invariant.  Every operation keeps it, and acts on the content as the obvious map
operation:

* `updateSequence_content` — an update assigns the batch, on all three paths;
* `pruneOne_content` — pruning keeps the times from `start` on;
* `flushLatePoints_content`, `rebuildStatistics_content` — housekeeping changes
  nothing;
* `replaceSequence_content`, `patchSequence_content` — derived writes;
* `querySequence_eq` — a query is a slice of the content.
-/

namespace SeqContent

open TseTypes OrderedSeries SeqWindow

/-- The series a window stands for: late points override the vector. -/
def content (w : SequenceWindow) : List RawTimeseriesPoint :=
  assignAll RawTimeseriesPoint.time w.latePoints (active w)

/-- The representation invariant. -/
structure Valid (w : SequenceWindow) : Prop where
  activeSorted : Ascending RawTimeseriesPoint.time (active w)
  lateSorted : Ascending RawTimeseriesPoint.time w.latePoints
  beginLe : w.activeBegin ≤ w.points.length
  latestBound : ∀ p, p ∈ active w ∨ p ∈ w.latePoints →
    ∃ t, w.latestTime = some t ∧ p.time ≤ t
  lateFew : w.latePoints.length < kLatePointFlushThreshold
  headShort : w.activeBegin < 4096 ∨ w.points.length > w.activeBegin * 2

/-- A new window is valid. -/
theorem valid_new : Valid {} where
  activeSorted := ascending_nil _
  lateSorted := ascending_nil _
  beginLe := Nat.le_refl _
  latestBound := by simp [active]
  lateFew := by decide
  headShort := Or.inl (by decide)

theorem Valid.content_ascending {w : SequenceWindow} (h : Valid w) :
    Ascending RawTimeseriesPoint.time (content w) :=
  h.activeSorted.assignAll _ _

theorem Valid.mem_content {w : SequenceWindow} (h : Valid w) (p : RawTimeseriesPoint) :
    p ∈ content w ↔
      p ∈ w.latePoints ∨ (p ∈ active w ∧ ∀ q ∈ w.latePoints, q.time ≠ p.time) :=
  mem_assignAll_ascending _ h.activeSorted h.lateSorted p

/-! ## Statistics never touch the storage -/

/-- Two windows that differ at most in their statistics. -/
structure SameStorage (w w' : SequenceWindow) : Prop where
  points : w'.points = w.points
  latePoints : w'.latePoints = w.latePoints
  activeBegin : w'.activeBegin = w.activeBegin
  latestTime : w'.latestTime = w.latestTime

theorem SameStorage.refl (w : SequenceWindow) : SameStorage w w := ⟨rfl, rfl, rfl, rfl⟩

theorem SameStorage.trans {w w' w'' : SequenceWindow} (h : SameStorage w w')
    (h' : SameStorage w' w'') : SameStorage w w'' :=
  ⟨h'.points.trans h.points, h'.latePoints.trans h.latePoints,
    h'.activeBegin.trans h.activeBegin, h'.latestTime.trans h.latestTime⟩

theorem SameStorage.active {w w' : SequenceWindow} (h : SameStorage w w') :
    active w' = active w := by
  rw [SeqWindow.active, SeqWindow.active, h.points, h.activeBegin]

theorem SameStorage.content {w w' : SequenceWindow} (h : SameStorage w w') :
    content w' = content w := by
  rw [SeqContent.content, SeqContent.content, h.latePoints, h.active]

theorem SameStorage.valid {w w' : SequenceWindow} (h : SameStorage w w') (hv : Valid w) :
    Valid w' where
  activeSorted := by rw [h.active]; exact hv.activeSorted
  lateSorted := by rw [h.latePoints]; exact hv.lateSorted
  beginLe := by rw [h.points, h.activeBegin]; exact hv.beginLe
  latestBound := by rw [h.active, h.latePoints, h.latestTime]; exact hv.latestBound
  lateFew := by rw [h.latePoints]; exact hv.lateFew
  headShort := by rw [h.points, h.activeBegin]; exact hv.headShort

theorem resetStatistics_same (w : SequenceWindow) : SameStorage w (resetStatistics w) :=
  ⟨rfl, rfl, rfl, rfl⟩

theorem appendStatistic_same (w : SequenceWindow) (p : RawTimeseriesPoint) :
    SameStorage w (appendStatistic w p) := by
  unfold appendStatistic
  split
  · exact SameStorage.refl w
  · split <;> exact ⟨rfl, rfl, rfl, rfl⟩

theorem removeStatistic_same (w : SequenceWindow) (p : RawTimeseriesPoint) :
    SameStorage w (removeStatistic w p) := by
  unfold removeStatistic
  split
  · exact SameStorage.refl w
  · split <;> exact ⟨rfl, rfl, rfl, rfl⟩

theorem foldl_same {f : SequenceWindow → RawTimeseriesPoint → SequenceWindow}
    (hf : ∀ w p, SameStorage w (f w p)) (ps : List RawTimeseriesPoint) (w : SequenceWindow) :
    SameStorage w (ps.foldl f w) := by
  induction ps generalizing w with
  | nil => exact SameStorage.refl w
  | cons p ps ih => exact (hf w p).trans (ih (f w p))

/-! ## Compaction, merging, flushing -/

@[simp] theorem compactSequence_activeBegin (w : SequenceWindow) :
    (compactSequence w).activeBegin = 0 := by
  unfold compactSequence
  split
  · assumption
  · split <;> rfl

/-- Compaction leaves the active points. -/
theorem compactSequence_points (w : SequenceWindow) :
    (compactSequence w).points = active w := by
  unfold compactSequence active
  split
  · rename_i h
    rw [h, List.drop_zero]
  · split
    · rename_i h
      exact (List.drop_eq_nil_of_le h).symm
    · rfl

@[simp] theorem compactSequence_latePoints (w : SequenceWindow) :
    (compactSequence w).latePoints = w.latePoints := by
  unfold compactSequence
  split
  · rfl
  · split <;> rfl

@[simp] theorem compactSequence_latestTime (w : SequenceWindow) :
    (compactSequence w).latestTime = w.latestTime := by
  unfold compactSequence
  split
  · rfl
  · split <;> rfl

theorem compactSequence_active (w : SequenceWindow) : active (compactSequence w) = active w := by
  rw [active, compactSequence_activeBegin, List.drop_zero, compactSequence_points]

/-- Compaction keeps a window valid. -/
theorem compactSequence_valid {w : SequenceWindow} (h : Valid w) : Valid (compactSequence w) where
  activeSorted := by rw [compactSequence_active]; exact h.activeSorted
  lateSorted := by rw [compactSequence_latePoints]; exact h.lateSorted
  beginLe := by simp
  latestBound := by
    rw [compactSequence_active, compactSequence_latePoints, compactSequence_latestTime]
    exact h.latestBound
  lateFew := by rw [compactSequence_latePoints]; exact h.lateFew
  headShort := Or.inl (by simp)

/-- The insertion loop assigns the batch. -/
theorem insertSorted_eq {tail incoming : List RawTimeseriesPoint}
    (ht : Ascending RawTimeseriesPoint.time tail)
    (hi : Ascending RawTimeseriesPoint.time incoming) :
    insertSorted tail incoming = assignAll RawTimeseriesPoint.time incoming tail := by
  induction incoming generalizing tail with
  | nil => rw [insertSorted, assignAll_nil]
  | cons p ps ih =>
      obtain ⟨_, hps⟩ := (ascending_cons _).mp hi
      rw [assignAll_cons_split _ ht hi, insertSorted, ht.below_eq]
      refine congrArg _ ?_
      have hup := ht.atOrAbove RawTimeseriesPoint.time p.time
      have heq := ht.atOrAbove_eq RawTimeseriesPoint.time p.time
      have hgt : tail.filter (fun x => decide (p.time < x.time)) =
          (atOrAbove RawTimeseriesPoint.time p.time tail).filter
            (fun x => decide (p.time < x.time)) := by
        rw [heq, List.filter_filter]
        refine List.filter_congr fun x _ => ?_
        by_cases hx : p.time < x.time
        · simp [hx, le_of_lt hx]
        · simp [hx]
      rw [hgt]
      cases hat : atOrAbove RawTimeseriesPoint.time p.time tail with
      | nil => simp [ih (ascending_nil _) hps]
      | cons f rest =>
          rw [hat] at hup heq
          obtain ⟨hf1, hf2⟩ := (ascending_cons _).mp hup
          have hfp : p.time ≤ f.time := by
            have : f ∈ tail.filter (fun x => decide (p.time ≤ x.time)) := by
              rw [← heq]
              exact List.mem_cons_self
            simpa using (List.mem_filter.mp this).2
          have hrest : rest.filter (fun x => decide (p.time < x.time)) = rest :=
            List.filter_eq_self.mpr fun x hx => by
              simpa using lt_of_le_of_lt hfp (hf1 x hx)
          show (if f.time = p.time then p :: insertSorted rest ps
              else p :: insertSorted (f :: rest) ps) = _
          by_cases hk : f.time = p.time
          · rw [if_pos hk, List.filter_cons_of_neg (by simp [hk]), hrest, ih hf2 hps]
          · have hlt : p.time < f.time := lt_of_le_of_ne hfp fun e => hk e.symm
            rw [if_neg hk, List.filter_cons_of_pos (by simpa using hlt), hrest, ih hup hps]

theorem mergeSortedPoints_nil (w : SequenceWindow) :
    mergeSortedPoints w [] = compactSequence { w with statisticsValid := false } := rfl

@[simp] theorem mergeSortedPoints_latePoints (w : SequenceWindow)
    (incoming : List RawTimeseriesPoint) :
    (mergeSortedPoints w incoming).latePoints = w.latePoints := by
  cases incoming with
  | nil => simp [mergeSortedPoints]
  | cons p ps => simp [mergeSortedPoints]

@[simp] theorem mergeSortedPoints_activeBegin (w : SequenceWindow)
    (incoming : List RawTimeseriesPoint) :
    (mergeSortedPoints w incoming).activeBegin = 0 := by
  cases incoming with
  | nil => simp [mergeSortedPoints]
  | cons p ps => rfl

/-- Merging a sorted batch assigns it to the live vector. -/
theorem mergeSortedPoints_points {w : SequenceWindow}
    (ha : Ascending RawTimeseriesPoint.time (active w)) {incoming : List RawTimeseriesPoint}
    (hi : Ascending RawTimeseriesPoint.time incoming) :
    (mergeSortedPoints w incoming).points =
      assignAll RawTimeseriesPoint.time incoming (active w) := by
  cases incoming with
  | nil =>
      rw [mergeSortedPoints_nil, compactSequence_points, assignAll_nil]
      rfl
  | cons p ps =>
      have hc : (compactSequence { w with statisticsValid := false }).points = active w :=
        compactSequence_points _
      simp only [mergeSortedPoints, hc]
      cases hl : (active w).getLast? with
      | none =>
          rw [List.getLast?_eq_none_iff] at hl
          rw [hl, List.nil_append]
          exact (hi.assignAll_empty _).symm
      | some back =>
          by_cases hb : back.time < p.time
          · simp only [if_pos hb]
            refine (assignAll_of_lt _ ((ascending_append _).mpr ⟨ha, hi, fun x hx y hy => ?_⟩)).symm
            have hxb : x.time ≤ back.time := by
              obtain ⟨init, hinit⟩ := List.getLast?_eq_some_iff.mp hl
              rw [hinit] at ha hx
              obtain ⟨_, _, hlt⟩ := (ascending_append _).mp ha
              rcases List.mem_append.mp hx with hx' | hx'
              · exact le_of_lt (hlt x hx' back (by simp))
              · rw [List.mem_singleton.mp hx']
            have hpy : p.time ≤ y.time := by
              rcases List.mem_cons.mp hy with rfl | hy'
              · exact le_refl _
              · exact le_of_lt (((ascending_cons _).mp hi).1 y hy')
            exact lt_of_le_of_lt hxb (lt_of_lt_of_le hb hpy)
          · simp only [if_neg hb]
            exact insertSorted_eq ha hi

theorem mergeSortedPoints_active {w : SequenceWindow}
    (ha : Ascending RawTimeseriesPoint.time (active w)) {incoming : List RawTimeseriesPoint}
    (hi : Ascending RawTimeseriesPoint.time incoming) :
    active (mergeSortedPoints w incoming) =
      assignAll RawTimeseriesPoint.time incoming (active w) := by
  rw [active, mergeSortedPoints_activeBegin, List.drop_zero, mergeSortedPoints_points ha hi]

/-- The latest time after a merge. -/
theorem mergeSortedPoints_latestTime (w : SequenceWindow) {incoming : List RawTimeseriesPoint}
    (hne : incoming ≠ []) {back : RawTimeseriesPoint}
    (hb : (mergeSortedPoints w incoming).points.getLast? = some back) :
    (mergeSortedPoints w incoming).latestTime = some back.time := by
  cases incoming with
  | nil => exact absurd rfl hne
  | cons p ps =>
      simp only [mergeSortedPoints] at hb ⊢
      rw [hb]

/-- The last element of a series has the greatest key. -/
theorem ascending_le_getLast {xs : List RawTimeseriesPoint}
    (h : Ascending RawTimeseriesPoint.time xs) {x : RawTimeseriesPoint} (hx : x ∈ xs) :
    ∃ back, xs.getLast? = some back ∧ x.time ≤ back.time := by
  cases hl : xs.getLast? with
  | none =>
      rw [List.getLast?_eq_none_iff] at hl
      exact absurd (hl ▸ hx) (by simp)
  | some back =>
      refine ⟨back, rfl, ?_⟩
      obtain ⟨init, rfl⟩ := List.getLast?_eq_some_iff.mp hl
      obtain ⟨_, _, hlt⟩ := (ascending_append _).mp h
      rcases List.mem_append.mp hx with hx' | hx'
      · exact le_of_lt (hlt x hx' back (by simp))
      · rw [List.mem_singleton.mp hx']

/-- Merging into a window without late points. -/
theorem mergeSortedPoints_valid {w : SequenceWindow}
    (ha : Ascending RawTimeseriesPoint.time (active w)) (hlate : w.latePoints = [])
    (hb : ∀ p ∈ active w, ∃ t, w.latestTime = some t ∧ p.time ≤ t)
    {incoming : List RawTimeseriesPoint} (hi : Ascending RawTimeseriesPoint.time incoming) :
    Valid (mergeSortedPoints w incoming) where
  activeSorted := by rw [mergeSortedPoints_active ha hi]; exact ha.assignAll _ _
  lateSorted := by rw [mergeSortedPoints_latePoints, hlate]; exact ascending_nil _
  beginLe := by simp
  latestBound := by
    intro p hp
    rw [mergeSortedPoints_latePoints, hlate] at hp
    have hp' : p ∈ active (mergeSortedPoints w incoming) := by
      rcases hp with hp | hp
      · exact hp
      · exact absurd hp (by simp)
    by_cases hne : incoming = []
    · subst hne
      rw [mergeSortedPoints_nil] at hp' ⊢
      rw [compactSequence_active] at hp'
      rw [compactSequence_latestTime]
      exact hb p hp'
    · rw [mergeSortedPoints_active ha hi, ← mergeSortedPoints_points ha hi] at hp'
      have hasc : Ascending RawTimeseriesPoint.time (mergeSortedPoints w incoming).points := by
        rw [mergeSortedPoints_points ha hi]
        exact ha.assignAll _ _
      obtain ⟨back, hback, hle⟩ := ascending_le_getLast hasc hp'
      exact ⟨back.time, mergeSortedPoints_latestTime w hne hback, hle⟩
  lateFew := by rw [mergeSortedPoints_latePoints, hlate]; decide
  headShort := Or.inl (by simp)

theorem flushLatePoints_latePoints (w : SequenceWindow) : (flushLatePoints w).latePoints = [] := by
  unfold flushLatePoints
  split
  · rename_i h
    simpa using h
  · simp

/-- What flushing needs of a window; the late buffer may be full. -/
structure Flushable (w : SequenceWindow) : Prop where
  activeSorted : Ascending RawTimeseriesPoint.time (active w)
  lateSorted : Ascending RawTimeseriesPoint.time w.latePoints
  latestBound : ∀ p, p ∈ active w ∨ p ∈ w.latePoints →
    ∃ t, w.latestTime = some t ∧ p.time ≤ t

theorem Valid.flushable {w : SequenceWindow} (h : Valid w) : Flushable w :=
  ⟨h.activeSorted, h.lateSorted, h.latestBound⟩

/-- A flush makes the content active. -/
theorem flushLatePoints_active {w : SequenceWindow} (h : Flushable w) :
    active (flushLatePoints w) = content w := by
  unfold flushLatePoints
  split
  · rename_i he
    rw [List.isEmpty_iff] at he
    rw [content, he, assignAll_nil]
  · have ha : Ascending RawTimeseriesPoint.time (active { w with latePoints := [] }) :=
      h.activeSorted
    exact mergeSortedPoints_active ha h.lateSorted

theorem flushLatePoints_content {w : SequenceWindow} (h : Flushable w) :
    content (flushLatePoints w) = content w := by
  rw [content, flushLatePoints_latePoints, assignAll_nil, flushLatePoints_active h]

/-- A flush leaves a valid window. -/
theorem flushLatePoints_valid {w : SequenceWindow} (h : Flushable w)
    (hlate : w.latePoints = [] → Valid w) : Valid (flushLatePoints w) := by
  unfold flushLatePoints
  split
  · rename_i he
    exact hlate (List.isEmpty_iff.mp he)
  · have ha : Ascending RawTimeseriesPoint.time (active { w with latePoints := [] }) :=
      h.activeSorted
    exact mergeSortedPoints_valid ha rfl (fun p hp => h.latestBound p (Or.inl hp)) h.lateSorted

theorem rebuildStatistics_same (w : SequenceWindow) :
    SameStorage (flushLatePoints w) (rebuildStatistics w) :=
  (resetStatistics_same _).trans (foldl_same appendStatistic_same _ _)

theorem rebuildStatistics_content {w : SequenceWindow} (h : Valid w) :
    content (rebuildStatistics w) = content w :=
  (rebuildStatistics_same w).content.trans (flushLatePoints_content h.flushable)

theorem rebuildStatistics_valid {w : SequenceWindow} (h : Valid w) :
    Valid (rebuildStatistics w) :=
  (rebuildStatistics_same w).valid (flushLatePoints_valid h.flushable fun _ => h)

/-! ## Updating -/

/-- Points that pass the check ascend. -/
theorem strictlyIncreasing_ascending {xs : List RawTimeseriesPoint}
    (h : strictlyIncreasing xs = true) : Ascending RawTimeseriesPoint.time xs := by
  induction xs with
  | nil => exact ascending_nil _
  | cons x xs ih =>
      cases xs with
      | nil => exact List.pairwise_singleton _ _
      | cons y ys =>
          rw [strictlyIncreasing] at h
          split at h
          · exact absurd h (by simp)
          · rename_i hlt
            have hys := ih h
            refine (ascending_cons _).mpr ⟨fun z hz => ?_, hys⟩
            rcases List.mem_cons.mp hz with rfl | hz'
            · exact not_le.mp hlt
            · exact lt_trans (not_le.mp hlt) (((ascending_cons _).mp hys).1 z hz')

theorem prepareUpdate_sequenceId (s : SequenceId) (incoming : List RawTimeseriesPoint) :
    (prepareUpdate s incoming).sequenceId = s := by
  rw [prepareUpdate]
  split
  · rfl
  · rfl

/-- A prepared update ascends. -/
theorem prepareUpdate_ascending (s : SequenceId) (xs : List RawTimeseriesPoint) :
    Ascending RawTimeseriesPoint.time (prepareUpdate s xs).incoming := by
  unfold prepareUpdate
  split
  · rename_i h
    exact strictlyIncreasing_ascending h
  · exact ascending_sortUnique _ xs

/-- The prepared batch assigns what the raw batch assigns. -/
theorem prepareUpdate_assignAll (s : SequenceId) (xs : List RawTimeseriesPoint)
    {base : List RawTimeseriesPoint} (hb : Ascending RawTimeseriesPoint.time base) :
    assignAll RawTimeseriesPoint.time (prepareUpdate s xs).incoming base =
      assignAll RawTimeseriesPoint.time xs base := by
  unfold prepareUpdate
  split
  · rfl
  · exact assignAll_sortUnique _ hb xs

/-- Appending points one by one. -/
theorem foldl_appendPoint (ps : List RawTimeseriesPoint) (w : SequenceWindow) :
    SameStorage
      { w with
        points := w.points ++ ps
        latestTime := (ps.getLast?.map RawTimeseriesPoint.time).or w.latestTime }
      (ps.foldl appendPoint w) := by
  induction ps generalizing w with
  | nil => exact ⟨by simp, rfl, rfl, rfl⟩
  | cons p ps ih =>
      have hstep : SameStorage
          { w with points := w.points ++ [p], latestTime := some p.time } (appendPoint w p) :=
        appendStatistic_same _ p
      have hih := ih (appendPoint w p)
      refine ⟨?_, ?_, ?_, ?_⟩
      · show (ps.foldl appendPoint (appendPoint w p)).points = w.points ++ p :: ps
        rw [hih.points]
        show (appendPoint w p).points ++ ps = _
        rw [hstep.points]
        simp
      · exact hih.latePoints.trans hstep.latePoints
      · exact hih.activeBegin.trans hstep.activeBegin
      · show (ps.foldl appendPoint (appendPoint w p)).latestTime = _
        rw [hih.latestTime]
        show (ps.getLast?.map RawTimeseriesPoint.time).or (appendPoint w p).latestTime = _
        rw [hstep.latestTime, List.getLast?_cons]
        cases ps.getLast? <;> rfl

/-- When a batch can be appended. -/
theorem appendOnly_spec {w : SequenceWindow} {prepared : PreparedSequenceUpdate}
    (h : appendOnly w prepared = true) :
    ∃ front rest, prepared.incoming = front :: rest ∧
      ∀ t, w.latestTime = some t → t < front.time := by
  unfold appendOnly at h
  cases hi : prepared.incoming with
  | nil => rw [hi] at h; simp at h
  | cons front rest =>
      refine ⟨front, rest, rfl, fun t ht => ?_⟩
      rw [hi, ht] at h
      simpa using (Bool.and_eq_true_iff.mp h).2

/-- On the append path the batch goes behind everything up to the latest time. -/
theorem appendOnly_after {w : SequenceWindow} {prepared : PreparedSequenceUpdate}
    (hi : Ascending RawTimeseriesPoint.time prepared.incoming)
    (h : appendOnly w prepared = true) {p q : RawTimeseriesPoint}
    (hp : ∃ t, w.latestTime = some t ∧ p.time ≤ t) (hq : q ∈ prepared.incoming) :
    p.time < q.time := by
  obtain ⟨front, rest, heq, hlt⟩ := appendOnly_spec h
  obtain ⟨t, ht, hpt⟩ := hp
  rw [heq] at hi hq
  refine lt_of_le_of_lt hpt (lt_of_lt_of_le (hlt t ht) ?_)
  rcases List.mem_cons.mp hq with rfl | hq'
  · exact le_refl _
  · exact le_of_lt (((ascending_cons _).mp hi).1 q hq')

/-- On the append path the batch goes behind everything the window holds. -/
theorem appendOnly_above {w : SequenceWindow} (hv : Valid w) {prepared : PreparedSequenceUpdate}
    (hi : Ascending RawTimeseriesPoint.time prepared.incoming)
    (h : appendOnly w prepared = true) {p q : RawTimeseriesPoint}
    (hp : p ∈ active w ∨ p ∈ w.latePoints) (hq : q ∈ prepared.incoming) : p.time < q.time :=
  appendOnly_after hi h (hv.latestBound p hp) hq

/-- The append path ends with the time of its last point. -/
theorem appendPath_latest {w : SequenceWindow} {prepared : PreparedSequenceUpdate}
    (hi : Ascending RawTimeseriesPoint.time prepared.incoming)
    (h : appendOnly w prepared = true) {p : RawTimeseriesPoint}
    (hp : (∃ t, w.latestTime = some t ∧ p.time ≤ t) ∨ p ∈ prepared.incoming) :
    ∃ t, (prepared.incoming.foldl appendPoint w).latestTime = some t ∧ p.time ≤ t := by
  obtain ⟨front, rest, heq, _⟩ := appendOnly_spec h
  obtain ⟨back, hback, _⟩ := ascending_le_getLast hi (show front ∈ _ by rw [heq]; simp)
  refine ⟨back.time, ?_, ?_⟩
  · rw [(foldl_appendPoint prepared.incoming w).latestTime, hback]
    rfl
  · rcases hp with hold | hnew
    · exact le_of_lt (appendOnly_after hi h hold (List.mem_of_getLast? hback))
    · obtain ⟨back', hback', hle⟩ := ascending_le_getLast hi hnew
      rw [hback] at hback'
      rw [Option.some.inj hback']
      exact hle

theorem appendPath_active {w : SequenceWindow} (hv : Valid w) (ps : List RawTimeseriesPoint) :
    active (ps.foldl appendPoint w) = active w ++ ps := by
  rw [(foldl_appendPoint ps w).active]
  exact List.drop_append_of_le_length hv.beginLe

/-- Appending keeps the active points in order. -/
theorem appendPath_ascending {w : SequenceWindow} (hv : Valid w)
    {prepared : PreparedSequenceUpdate}
    (hi : Ascending RawTimeseriesPoint.time prepared.incoming)
    (h : appendOnly w prepared = true) :
    Ascending RawTimeseriesPoint.time (active w ++ prepared.incoming) :=
  (ascending_append _).mpr ⟨hv.activeSorted, hi, fun _ hp _ hq =>
    appendOnly_above hv hi h (Or.inl hp) hq⟩

/-- On the append path the content grows at its end. -/
theorem appendPath_content {w : SequenceWindow} (hv : Valid w)
    {prepared : PreparedSequenceUpdate}
    (hi : Ascending RawTimeseriesPoint.time prepared.incoming)
    (h : appendOnly w prepared = true) :
    content (prepared.incoming.foldl appendPoint w) = content w ++ prepared.incoming := by
  have hasc := appendPath_ascending hv hi h
  have hlate : (prepared.incoming.foldl appendPoint w).latePoints = w.latePoints :=
    (foldl_appendPoint _ w).latePoints
  have happ : Ascending RawTimeseriesPoint.time (content w ++ prepared.incoming) := by
    refine (ascending_append _).mpr ⟨hv.content_ascending, hi, fun p hp q hq => ?_⟩
    rcases (hv.mem_content p).mp hp with hl | ⟨ha, _⟩
    · exact appendOnly_above hv hi h (Or.inr hl) hq
    · exact appendOnly_above hv hi h (Or.inl ha) hq
  rw [content, hlate, appendPath_active hv]
  refine ascending_ext _ (hasc.assignAll _ _) happ fun y => ?_
  rw [mem_assignAll_ascending _ hasc hv.lateSorted, List.mem_append, List.mem_append,
    hv.mem_content]
  constructor
  · rintro (hy | ⟨hy | hy, hn⟩)
    · exact Or.inl (Or.inl hy)
    · exact Or.inl (Or.inr ⟨hy, hn⟩)
    · exact Or.inr hy
  · rintro ((hy | ⟨hy, hn⟩) | hy)
    · exact Or.inl hy
    · exact Or.inr ⟨Or.inl hy, hn⟩
    · exact Or.inr ⟨Or.inr hy, fun q hq =>
        ne_of_lt (appendOnly_above hv hi h (Or.inr hq) hy)⟩

/-- The window stays valid. -/
theorem appendPath_valid {w : SequenceWindow} (hv : Valid w)
    {prepared : PreparedSequenceUpdate}
    (hi : Ascending RawTimeseriesPoint.time prepared.incoming)
    (h : appendOnly w prepared = true) : Valid (prepared.incoming.foldl appendPoint w) := by
  have hs := foldl_appendPoint prepared.incoming w
  refine ⟨?_, ?_, ?_, fun p hp => appendPath_latest hi h ?_, ?_, ?_⟩
  · rw [appendPath_active hv]
    exact appendPath_ascending hv hi h
  · rw [hs.latePoints]
    exact hv.lateSorted
  · rw [hs.points, hs.activeBegin]
    exact le_trans hv.beginLe (by simp)
  · rw [appendPath_active hv, hs.latePoints, List.mem_append] at hp
    rcases hp with (hp | hp) | hp
    · exact Or.inl (hv.latestBound p (Or.inl hp))
    · exact Or.inr hp
    · exact Or.inl (hv.latestBound p (Or.inr hp))
  · rw [hs.latePoints]
    exact hv.lateFew
  · rw [hs.points, hs.activeBegin]
    refine hv.headShort.imp id fun hlt => ?_
    simp only [List.length_append]
    omega

/-- The late path leaves the vector alone and assigns into the side map. -/
theorem foldl_addLatePoint (ps : List RawTimeseriesPoint) (w : SequenceWindow) :
    (ps.foldl addLatePoint w).points = w.points ∧
      (ps.foldl addLatePoint w).activeBegin = w.activeBegin ∧
      (ps.foldl addLatePoint w).latePoints =
        assignAll RawTimeseriesPoint.time ps w.latePoints := by
  induction ps generalizing w with
  | nil => exact ⟨rfl, rfl, rfl⟩
  | cons p ps ih =>
      obtain ⟨h1, h2, h3⟩ := ih (addLatePoint w p)
      exact ⟨h1, h2, h3⟩

/-- The latest time after a late point. -/
theorem addLatePoint_latest (w : SequenceWindow) (p : RawTimeseriesPoint) (t : Timestamp)
    (ht : t = p.time ∨ ∃ u, w.latestTime = some u ∧ t ≤ u) :
    ∃ u, (addLatePoint w p).latestTime = some u ∧ t ≤ u := by
  unfold addLatePoint
  cases hl : w.latestTime with
  | none =>
      rcases ht with rfl | ⟨u, hu, _⟩
      · exact ⟨p.time, rfl, le_refl _⟩
      · exact absurd (hl.symm.trans hu) (by simp)
  | some latest =>
      by_cases hlt : latest < p.time
      · refine ⟨p.time, by simp [hlt], ?_⟩
        rcases ht with rfl | ⟨u, hu, htu⟩
        · exact le_refl _
        · rw [hl] at hu
          exact le_trans htu (le_of_lt (Option.some.inj hu ▸ hlt))
      · refine ⟨latest, by simp [hlt], ?_⟩
        rcases ht with rfl | ⟨u, hu, htu⟩
        · exact not_lt.mp hlt
        · rw [hl] at hu
          exact Option.some.inj hu ▸ htu

/-- The latest time after some late points. -/
theorem foldl_addLatePoint_latest (ps : List RawTimeseriesPoint) (w : SequenceWindow)
    (t : Timestamp)
    (ht : (∃ p ∈ ps, p.time = t) ∨ ∃ u, w.latestTime = some u ∧ t ≤ u) :
    ∃ u, (ps.foldl addLatePoint w).latestTime = some u ∧ t ≤ u := by
  induction ps generalizing w with
  | nil =>
      rcases ht with ⟨p, hp, _⟩ | ht
      · exact absurd hp (by simp)
      · exact ht
  | cons p ps ih =>
      refine ih (addLatePoint w p) ?_
      rcases ht with ⟨q, hq, hqt⟩ | ht
      · rcases List.mem_cons.mp hq with rfl | hq'
        · exact Or.inr (addLatePoint_latest w q t (Or.inl hqt.symm))
        · exact Or.inl ⟨q, hq', hqt⟩
      · exact Or.inr (addLatePoint_latest w p t (Or.inr ht))

/-- With late points a window can be flushed. -/
theorem latePath_flushable {w : SequenceWindow} (hv : Valid w) (ps : List RawTimeseriesPoint) :
    Flushable (ps.foldl addLatePoint { w with statisticsValid := false }) := by
  obtain ⟨h1, h2, h3⟩ := foldl_addLatePoint ps { w with statisticsValid := false }
  have hact : active (ps.foldl addLatePoint { w with statisticsValid := false }) = active w := by
    rw [active, h1, h2]
    rfl
  refine ⟨by rw [hact]; exact hv.activeSorted, by rw [h3]; exact hv.lateSorted.assignAll _ _,
    fun p hp => foldl_addLatePoint_latest _ _ _ ?_⟩
  rw [hact, h3, mem_assignAll _ hv.lateSorted] at hp
  rcases hp with hp | hp | ⟨_, hp⟩
  · exact Or.inr (hv.latestBound p (Or.inl hp))
  · exact Or.inl ⟨p, (lastAt_some _ hp).1, rfl⟩
  · exact Or.inr (hv.latestBound p (Or.inr hp))

/-- Late points are assigned to the content. -/
theorem latePath_content {w : SequenceWindow} (hv : Valid w) {ps : List RawTimeseriesPoint}
    (hi : Ascending RawTimeseriesPoint.time ps) :
    content (ps.foldl addLatePoint { w with statisticsValid := false }) =
      assignAll RawTimeseriesPoint.time ps (content w) := by
  obtain ⟨h1, h2, h3⟩ := foldl_addLatePoint ps { w with statisticsValid := false }
  rw [content, active, h1, h2, h3]
  exact assignAll_assoc _ hv.activeSorted hv.lateSorted hi

theorem isEmpty_active {w : SequenceWindow} (h : isEmpty w = true) :
    active w = [] ∧ w.latePoints = [] := by
  unfold isEmpty at h
  obtain ⟨h1, h2⟩ := Bool.and_eq_true_iff.mp h
  exact ⟨List.drop_eq_nil_of_le (by simpa using h1), List.isEmpty_iff.mp h2⟩

/-- Whatever path an update takes, it assigns the batch. -/
theorem updateSequence_content {w : SequenceWindow} (hv : Valid w)
    {prepared : PreparedSequenceUpdate}
    (hi : Ascending RawTimeseriesPoint.time prepared.incoming) :
    content (updateSequence w prepared).1 =
      assignAll RawTimeseriesPoint.time prepared.incoming (content w) := by
  unfold updateSequence
  by_cases ha : appendOnly w prepared = true
  · rw [if_pos ha]
    refine (appendPath_content hv hi ha).trans (assignAll_of_lt _ ?_).symm
    rw [← appendPath_content hv hi ha]
    exact (appendPath_valid hv hi ha).content_ascending
  · rw [if_neg ha]
    by_cases he : (isEmpty w && w.latePoints.isEmpty) = true
    · obtain ⟨hact, hlate⟩ := isEmpty_active (Bool.and_eq_true_iff.mp he).1
      rw [if_pos he]
      show content (mergeSortedPoints w prepared.incoming) = _
      rw [content, mergeSortedPoints_latePoints, mergeSortedPoints_active hv.activeSorted hi,
        content, hlate, assignAll_nil, assignAll_nil]
    · rw [if_neg he]
      simp only
      split
      · rw [flushLatePoints_content (latePath_flushable hv _), latePath_content hv hi]
      · exact latePath_content hv hi

/-- An update keeps a window valid. -/
theorem updateSequence_valid {w : SequenceWindow} (hv : Valid w)
    {prepared : PreparedSequenceUpdate}
    (hi : Ascending RawTimeseriesPoint.time prepared.incoming) :
    Valid (updateSequence w prepared).1 := by
  unfold updateSequence
  by_cases ha : appendOnly w prepared = true
  · rw [if_pos ha]
    exact appendPath_valid hv hi ha
  · rw [if_neg ha]
    by_cases he : (isEmpty w && w.latePoints.isEmpty) = true
    · obtain ⟨hact, hlate⟩ := isEmpty_active (Bool.and_eq_true_iff.mp he).1
      rw [if_pos he]
      exact mergeSortedPoints_valid hv.activeSorted hlate
        (fun p hp => hv.latestBound p (Or.inl hp)) hi
    · rw [if_neg he]
      have hf := latePath_flushable hv prepared.incoming
      obtain ⟨h1, h2, _⟩ :=
        foldl_addLatePoint prepared.incoming { w with statisticsValid := false }
      simp only
      split
      · rename_i hlen
        refine flushLatePoints_valid hf fun hnil => ?_
        rw [hnil] at hlen
        exact absurd hlen (by decide)
      · rename_i hlen
        refine ⟨hf.activeSorted, hf.lateSorted, ?_, hf.latestBound, Nat.lt_of_not_le hlen, ?_⟩
        · rw [h1, h2]
          exact hv.beginLe
        · rw [h1, h2]
          exact hv.headShort

/-- An update reported as incremental put the batch behind the old content. -/
theorem updateSequence_incremental {w : SequenceWindow} (hv : Valid w)
    {prepared : PreparedSequenceUpdate}
    (hi : Ascending RawTimeseriesPoint.time prepared.incoming)
    (hs : (updateSequence w prepared).2 = true) :
    content (updateSequence w prepared).1 = content w ++ prepared.incoming ∧
      prepared.strictlyIncreasing = true := by
  unfold updateSequence at hs ⊢
  by_cases ha : appendOnly w prepared = true
  · rw [if_pos ha]
    exact ⟨appendPath_content hv hi ha, (Bool.and_eq_true_iff.mp ha).1⟩
  · rw [if_neg ha] at hs
    split at hs <;> exact absurd hs (by simp)

/-! ## Pruning -/

/-- Pruning drops the points below the start. -/
theorem pruneOne_storage (start : Timestamp) (w : SequenceWindow) :
    active (pruneOne start w).1 = atOrAbove RawTimeseriesPoint.time start (active w) ∧
      (pruneOne start w).1.latePoints = atOrAbove RawTimeseriesPoint.time start w.latePoints ∧
      (pruneOne start w).1.latestTime = w.latestTime := by
  have hr := foldl_same removeStatistic_same
    (below RawTimeseriesPoint.time start (active w)) w
  have hdrop : w.points.drop
      (w.activeBegin + (below RawTimeseriesPoint.time start (active w)).length) =
        atOrAbove RawTimeseriesPoint.time start (active w) := by
    rw [← drop_length_below, active, List.drop_drop]
  unfold pruneOne
  simp only
  split
  · refine ⟨?_, by rw [compactSequence_latePoints], by rw [compactSequence_latestTime]; exact hr.latestTime⟩
    rw [compactSequence_active, active]
    simp only [hr.points, hdrop]
  · refine ⟨?_, rfl, hr.latestTime⟩
    rw [active]
    simp only [hr.points, hdrop]

/-- Pruning keeps the times from `start` on. -/
theorem pruneOne_content {w : SequenceWindow} (hv : Valid w) (start : Timestamp) :
    content (pruneOne start w).1 =
      (content w).filter (fun p => decide (start ≤ p.time)) := by
  obtain ⟨h1, h2, _⟩ := pruneOne_storage start w
  rw [← hv.content_ascending.atOrAbove_eq, content, h1, h2, content,
    atOrAbove_assignAll _ hv.activeSorted hv.lateSorted]

/-- Pruning keeps a window valid. -/
theorem pruneOne_valid {w : SequenceWindow} (hv : Valid w) (start : Timestamp) :
    Valid (pruneOne start w).1 := by
  obtain ⟨h1, h2, h3⟩ := pruneOne_storage start w
  have hr := foldl_same removeStatistic_same
    (below RawTimeseriesPoint.time start (active w)) w
  have hlen : w.activeBegin + (below RawTimeseriesPoint.time start (active w)).length ≤
      w.points.length := by
    have hle : ((active w).takeWhile (fun p => decide (p.time < start))).length ≤
        (active w).length := (List.takeWhile_sublist _).length_le
    have hact : (active w).length = w.points.length - w.activeBegin := List.length_drop
    have := hv.beginLe
    unfold below
    omega
  refine ⟨?_, ?_, ?_, fun p hp => ?_, ?_, ?_⟩
  · rw [h1]
    exact hv.activeSorted.atOrAbove _ _
  · rw [h2]
    exact hv.lateSorted.atOrAbove _ _
  · unfold pruneOne
    simp only
    split
    · simp
    · simpa [hr.points] using hlen
  · rw [h3]
    refine hv.latestBound p ?_
    rw [h1, h2] at hp
    exact hp.imp (fun h => List.dropWhile_sublist _ |>.subset h)
      (fun h => List.dropWhile_sublist _ |>.subset h)
  · rw [h2]
    exact lt_of_le_of_lt (List.dropWhile_sublist _).length_le hv.lateFew
  · unfold pruneOne
    simp only
    split
    · exact Or.inl (by simp)
    · rename_i hc
      by_cases h4 : 4096 ≤ w.activeBegin +
          (below RawTimeseriesPoint.time start (active w)).length
      · refine Or.inr (Nat.lt_of_not_le fun hle => hc ⟨h4, hle⟩)
      · exact Or.inl (Nat.lt_of_not_le h4)

/-- Pruning reports an eviction exactly when the content had something older. -/
theorem pruneOne_evicted {w : SequenceWindow} (hv : Valid w) (start : Timestamp) :
    (pruneOne start w).2 = true ↔ ∃ p ∈ content w, p.time < start := by
  have hflag : (pruneOne start w).2 = true ↔
      below RawTimeseriesPoint.time start (active w) ≠ [] ∨
        below RawTimeseriesPoint.time start w.latePoints ≠ [] := by
    unfold pruneOne
    simp
  have hne : ∀ xs : List RawTimeseriesPoint, xs ≠ [] ↔ ∃ p, p ∈ xs := fun xs =>
    ⟨List.exists_mem_of_ne_nil xs, fun ⟨p, hp⟩ => List.ne_nil_of_mem hp⟩
  rw [hflag, hne, hne]
  simp only [hv.activeSorted.mem_below, hv.lateSorted.mem_below, hv.mem_content]
  constructor
  · rintro (⟨p, hp, hlt⟩ | ⟨p, hp, hlt⟩)
    · by_cases hov : ∃ q ∈ w.latePoints, q.time = p.time
      · obtain ⟨q, hq, hqt⟩ := hov
        exact ⟨q, Or.inl hq, by rw [hqt]; exact hlt⟩
      · exact ⟨p, Or.inr ⟨hp, fun q hq he => hov ⟨q, hq, he⟩⟩, hlt⟩
    · exact ⟨p, Or.inl hp, hlt⟩
  · rintro ⟨p, hp | ⟨hp, _⟩, hlt⟩
    · exact Or.inr ⟨p, hp, hlt⟩
    · exact Or.inl ⟨p, hp, hlt⟩

/-! ## Derived writes -/

/-- Replacing stores the new points alone. -/
theorem replaceSequence_same (w : SequenceWindow) (data : TimeseriesBatch) :
    SameStorage
      { w with
        points := sortUnique RawTimeseriesPoint.time data.points
        activeBegin := 0
        latePoints := []
        latestTime :=
          (sortUnique RawTimeseriesPoint.time data.points).getLast?.map RawTimeseriesPoint.time }
      (replaceSequence w data) :=
  (resetStatistics_same _).trans (foldl_same appendStatistic_same _ _)

theorem replaceSequence_content (w : SequenceWindow) (data : TimeseriesBatch) :
    content (replaceSequence w data) = assignAll RawTimeseriesPoint.time data.points [] := by
  rw [(replaceSequence_same w data).content, ← sortUnique_eq]
  rfl

/-- A replacement leaves a valid window. -/
theorem replaceSequence_valid (w : SequenceWindow) (data : TimeseriesBatch) :
    Valid (replaceSequence w data) := by
  have hasc := ascending_sortUnique RawTimeseriesPoint.time data.points
  refine (replaceSequence_same w data).valid
    ⟨hasc, ascending_nil _, Nat.zero_le _, fun p hp => ?_,
      by simp [kLatePointFlushThreshold], Or.inl (by simp)⟩
  have hp' : p ∈ sortUnique RawTimeseriesPoint.time data.points := by
    rcases hp with hp | hp
    · exact hp
    · exact absurd hp (by simp)
  obtain ⟨back, hback, hle⟩ := ascending_le_getLast hasc hp'
  exact ⟨back.time, by simp [hback], hle⟩

/-- The times a patch leaves alone; up to the largest timestamp it erases
    everything. -/
def outsidePatch (startTime endTime : Timestamp) (p : RawTimeseriesPoint) : Bool :=
  decide (p.time < startTime) || (decide (endTime ≠ int64Max) && decide (endTime < p.time))

/-- What a patch keeps of the old points. -/
theorem erased_eq {xs : List RawTimeseriesPoint} (hx : Ascending RawTimeseriesPoint.time xs)
    {startTime endTime : Timestamp} (hse : startTime ≤ endTime) :
    below RawTimeseriesPoint.time startTime xs ++
        (if endTime = int64Max then []
          else xs.dropWhile (fun point => decide (point.time ≤ endTime))) =
      xs.filter (outsidePatch startTime endTime) := by
  have hafter : (if endTime = int64Max then []
      else xs.dropWhile (fun point => decide (point.time ≤ endTime))) =
        xs.filter (fun p => decide (endTime ≠ int64Max) && decide (endTime < p.time)) := by
    by_cases he : endTime = int64Max
    · rw [if_pos he]
      exact (List.filter_eq_nil_iff.mpr fun p _ => by simp [he]).symm
    · have h1 : (fun p : RawTimeseriesPoint => decide (p.time ≤ endTime)) =
          fun p => decide (p.time < endTime + 1) := by
        funext p
        exact decide_eq_decide.mpr Int.lt_add_one_iff.symm
      rw [if_neg he, h1]
      refine (hx.atOrAbove_eq RawTimeseriesPoint.time (endTime + 1)).trans ?_
      refine List.filter_congr fun p _ => ?_
      rw [decide_eq_true he, Bool.true_and]
      rfl
  rw [hafter, hx.below_eq]
  have hboth := hx.filter RawTimeseriesPoint.time (outsidePatch startTime endTime)
  refine ascending_ext _ ((ascending_append _).mpr
    ⟨hx.filter _ _, hx.filter _ _, fun p hp q hq => ?_⟩) hboth fun p => ?_
  · simp only [List.mem_filter, decide_eq_true_eq, Bool.and_eq_true] at hp hq
    exact lt_trans (lt_of_lt_of_le hp.2 hse) hq.2.2
  · simp only [outsidePatch, List.mem_append, List.mem_filter, decide_eq_true_eq,
      Bool.or_eq_true]
    exact and_or_left.symm

/-- A patch erases the range and assigns its data. -/
theorem patchSequence_content {w : SequenceWindow} (hv : Valid w)
    {startTime endTime : Timestamp} (hse : startTime ≤ endTime) (data : TimeseriesBatch) :
    content (patchSequence w startTime endTime data) =
      assignAll RawTimeseriesPoint.time data.points
        ((content w).filter (outsidePatch startTime endTime)) := by
  have hflat : (compactSequence (flushLatePoints w)).points = content w := by
    rw [compactSequence_points, flushLatePoints_active hv.flushable]
  have hlate : (compactSequence (flushLatePoints w)).latePoints = [] := by
    rw [compactSequence_latePoints, flushLatePoints_latePoints]
  have herase := erased_eq hv.content_ascending hse
  have hasc := hv.content_ascending.filter RawTimeseriesPoint.time
    (outsidePatch startTime endTime)
  unfold patchSequence
  simp only [hflat, herase]
  rw [content, mergeSortedPoints_latePoints]
  simp only [hlate, assignAll_nil]
  rw [mergeSortedPoints_active (by simpa [active] using hasc) (ascending_sortUnique _ _)]
  simp only [active, compactSequence_activeBegin, List.drop_zero]
  exact assignAll_sortUnique _ hasc _

/-- A patch keeps a window valid. -/
theorem patchSequence_valid {w : SequenceWindow} (hv : Valid w)
    {startTime endTime : Timestamp} (hse : startTime ≤ endTime) (data : TimeseriesBatch) :
    Valid (patchSequence w startTime endTime data) := by
  have hfv := flushLatePoints_valid hv.flushable fun _ => hv
  have hcv := compactSequence_valid hfv
  have hflat : (compactSequence (flushLatePoints w)).points = content w := by
    rw [compactSequence_points, flushLatePoints_active hv.flushable]
  have hcact : active (compactSequence (flushLatePoints w)) = content w := by
    rw [compactSequence_active, flushLatePoints_active hv.flushable]
  have hlate : (compactSequence (flushLatePoints w)).latePoints = [] := by
    rw [compactSequence_latePoints, flushLatePoints_latePoints]
  have herase := erased_eq hv.content_ascending hse
  have hasc := hv.content_ascending.filter RawTimeseriesPoint.time
    (outsidePatch startTime endTime)
  have hact : active
      { compactSequence (flushLatePoints w) with
        points := (content w).filter (outsidePatch startTime endTime) } =
      (content w).filter (outsidePatch startTime endTime) := by
    simp [active]
  unfold patchSequence
  simp only [hflat, herase]
  refine mergeSortedPoints_valid (by rw [hact]; exact hasc) (by exact hlate) (fun p hp => ?_)
    (ascending_sortUnique _ _)
  refine hcv.latestBound p (Or.inl ?_)
  rw [hact] at hp
  rw [hcact]
  exact List.mem_of_mem_filter hp

/-! ## Queries -/

/-- The merge of a query, without indices. -/
theorem mergeRange_eq (n : Nat) (vs ls : List RawTimeseriesPoint) :
    mergeRange n vs ls = overlayTake RawTimeseriesPoint.time n vs ls := by
  induction n generalizing vs ls with
  | zero => simp [mergeRange, overlayTake]
  | succ n ih =>
      cases vs with
      | nil =>
          cases ls with
          | nil => rfl
          | cons l ls => simp [mergeRange, overlayTake, ih]
      | cons v vs =>
          cases ls with
          | nil => simp [mergeRange, overlayTake, ih]
          | cons l ls => simp [mergeRange, overlayTake, ih]

/-- The points that follow, without indices. -/
theorem takeFollowing_eq (n : Nat) (vs ls : List RawTimeseriesPoint) :
    takeFollowing n vs ls = overlayTake RawTimeseriesPoint.time n vs ls := by
  induction n generalizing vs ls with
  | zero => simp [takeFollowing, overlayTake]
  | succ n ih =>
      cases vs with
      | nil =>
          cases ls with
          | nil => rfl
          | cons l ls => simp [takeFollowing, overlayTake, ih]
      | cons v vs =>
          cases ls with
          | nil => simp [takeFollowing, overlayTake, ih]
          | cons l ls =>
              rw [takeFollowing, overlayTake, ih, ih, ih]
              by_cases h1 : v.time < l.time
              · rw [if_pos h1, if_neg (not_le.mpr h1)]
              · rw [if_neg h1, if_pos (not_lt.mp h1)]
                by_cases h2 : v.time = l.time
                · rw [if_pos h2, if_neg (by rw [h2]; exact lt_irrefl _)]
                · rw [if_neg h2, if_pos (lt_of_le_of_ne (not_lt.mp h1) fun e => h2 e.symm)]

/-- The loop that walks backwards is the same merge in the reversed order. -/
theorem takePreceding_eq (n : Nat) (vs ls : List RawTimeseriesPoint) :
    takePreceding n vs ls =
      @overlayTake RawTimeseriesPoint Timestampᵒᵈ _ (fun p => OrderDual.toDual p.time) n vs ls := by
  induction n generalizing vs ls with
  | zero => simp [takePreceding, overlayTake]
  | succ n ih =>
      cases vs with
      | nil =>
          cases ls with
          | nil => rfl
          | cons l ls => simp [takePreceding, overlayTake, ih]
      | cons v vs =>
          cases ls with
          | nil => simp [takePreceding, overlayTake, ih]
          | cons l ls =>
              rw [takePreceding, overlayTake, ih, ih, ih]
              simp only [OrderDual.toDual_lt_toDual]
              by_cases h1 : l.time < v.time
              · rw [if_pos h1, if_neg (not_le.mpr h1)]
              · rw [if_neg h1, if_pos (not_lt.mp h1)]
                by_cases h2 : v.time = l.time
                · rw [if_pos h2, if_neg (by rw [h2]; exact lt_irrefl _)]
                · rw [if_neg h2, if_pos (lt_of_le_of_ne (not_lt.mp h1) h2)]

/-- The points before `start` closest to it. -/
theorem takePreceding_overlay (n : Nat) {vs ls : List RawTimeseriesPoint}
    (hv : Ascending RawTimeseriesPoint.time vs) (hl : Ascending RawTimeseriesPoint.time ls) :
    (takePreceding n vs.reverse ls.reverse).reverse =
      lastN n (assignAll RawTimeseriesPoint.time ls vs) := by
  rw [takePreceding_eq, overlayTake_eq _ n ((ascending_reverse_dual _).mpr hv)
    ((ascending_reverse_dual _).mpr hl), assignAll_reverse_dual _ hv hl, reverse_take_reverse]

/-- A query of one sequence: context before, the range itself, context after. -/
theorem querySequence_eq {w : SequenceWindow} (hv : Valid w) (start finish : Timestamp)
    (precedingPoints followingPoints : Nat) :
    querySequence w start finish precedingPoints followingPoints =
      lastN precedingPoints (below RawTimeseriesPoint.time start (content w)) ++
        below RawTimeseriesPoint.time finish
          (atOrAbove RawTimeseriesPoint.time start (content w)) ++
        (atOrAbove RawTimeseriesPoint.time finish
          (atOrAbove RawTimeseriesPoint.time start (content w))).take followingPoints := by
  have ha := hv.activeSorted
  have hl := hv.lateSorted
  have ha1 := ha.atOrAbove RawTimeseriesPoint.time start
  have hl1 := hl.atOrAbove RawTimeseriesPoint.time start
  have hrest : atOrAbove RawTimeseriesPoint.time start (content w) =
      assignAll RawTimeseriesPoint.time
        (atOrAbove RawTimeseriesPoint.time start w.latePoints)
        (atOrAbove RawTimeseriesPoint.time start (active w)) := atOrAbove_assignAll _ ha hl start
  have hbefore : below RawTimeseriesPoint.time start (content w) =
      assignAll RawTimeseriesPoint.time
        (below RawTimeseriesPoint.time start w.latePoints)
        (below RawTimeseriesPoint.time start (active w)) := below_assignAll _ ha hl start
  rw [hrest, hbefore, below_assignAll _ ha1 hl1, atOrAbove_assignAll _ ha1 hl1]
  unfold querySequence
  simp only
  rw [takePreceding_overlay _ (ha.below _ _) (hl.below _ _), mergeRange_eq, takeFollowing_eq,
    overlayTake_full _ (ha1.below _ _) (hl1.below _ _),
    overlayTake_eq _ _ (ha1.atOrAbove _ _) (hl1.atOrAbove _ _)]

end SeqContent
