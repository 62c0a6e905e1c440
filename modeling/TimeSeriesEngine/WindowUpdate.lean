import TimeSeriesEngine.WindowContent

/-!
# One accepted update, step by step

The lemmas about `updateWindowIncremental` that everything above the window
service rests on.

* Reading the batch: `readBatch_accepted` says when a batch is accepted and that
  the report then starts as the fold of `notePoint`; `noteAll_find` reads one
  sequence of that fold.
* The state: `update_contentOf`, `update_valid`, `update_watermarks`, … say what
  an accepted update leaves.
* The report: `update_changed`, `update_reports` say what it tells its consumers.
-/

namespace WindowUpdate

open TseTypes KeyedTable OrderedSeries SeqWindow SeqContent HotWindow WindowContent

/-! ## Reading the batch -/

/-- The conditions under which an update is not rejected. -/
structure Accepted (projectId : ProjectId) (data : TimeseriesBatch) (override : Option Int) :
    Prop where
  nonempty : data.points ≠ []
  size : ∀ size, override = some size → 0 < size
  context : validateBatchContext (effectiveProject projectId) data = none
  points : ∀ point ∈ data.points, validateRawPoint (effectiveProject projectId) point = none

/-- The report after reading a whole batch. -/
def noteAll (projectId : ProjectId) (points : List RawTimeseriesPoint) : WindowUpdateResult :=
  points.foldl notePoint { projectId := effectiveProject projectId }

/-- The loop over the points notes them all, or stops at one that is not valid. -/
theorem readPoints_eq (project : ProjectId) (points : List RawTimeseriesPoint)
    (result : WindowUpdateResult) :
    (∀ point ∈ points, validateRawPoint project point = none) ∧
        readPoints project points result = (points.foldl notePoint result, none) ∨
      (∃ point ∈ points, validateRawPoint project point ≠ none) ∧
        ∃ error, (readPoints project points result).2 = some error := by
  induction points generalizing result with
  | nil => exact Or.inl ⟨by simp, rfl⟩
  | cons point points ih =>
      cases hv : validateRawPoint project point with
      | some error =>
          refine Or.inr ⟨⟨point, by simp, by simp [hv]⟩, error, ?_⟩
          simp [readPoints, hv]
      | none =>
          have hstep : readPoints project (point :: points) result =
              readPoints project points (notePoint result point) := by
            simp [readPoints, hv]
          rw [hstep]
          rcases ih (notePoint result point) with ⟨hall, heq⟩ | ⟨⟨bad, hbad, hne⟩, herr⟩
          · refine Or.inl ⟨fun q hq => ?_, heq⟩
            rcases List.mem_cons.mp hq with rfl | hq'
            · exact hv
            · exact hall q hq'
          · exact Or.inr ⟨⟨bad, List.mem_cons_of_mem _ hbad, hne⟩, herr⟩

/-- A batch is read to the end exactly when it is accepted. -/
theorem readBatch_cases (projectId : ProjectId) (data : TimeseriesBatch) (override : Option Int) :
    Accepted projectId data override ∧
        readBatch projectId data override = (noteAll projectId data.points, none) ∨
      ¬ Accepted projectId data override ∧
        ∃ result error, readBatch projectId data override = (result, some error) := by
  unfold readBatch
  by_cases h1 : data.points = []
  · refine Or.inr ⟨fun h => h.nonempty h1, ?_⟩
    simp [h1]
  have h1' : data.points.isEmpty = false := by simpa using h1
  by_cases h2 : ∃ size, override = some size ∧ size ≤ 0
  · obtain ⟨size, hsize, hle⟩ := h2
    refine Or.inr ⟨fun h => absurd (h.size size hsize) (not_lt.mpr hle), ?_⟩
    simp [h1', hsize, hle]
  have h2' : override.any (fun size => decide (size ≤ 0)) = false := by
    cases override with
    | none => rfl
    | some size => simpa using h2
  have hsize : ∀ size, override = some size → 0 < size :=
    fun size hs => not_le.mp fun hle => h2 ⟨size, hs, hle⟩
  cases h3 : validateBatchContext (effectiveProject projectId) data with
  | some error =>
      refine Or.inr ⟨fun h => absurd h.context (by simp [h3]), ?_⟩
      simp [h1', h2', h3]
  | none =>
      simp only [h1', h2', h3, Bool.false_eq_true, if_false]
      rcases readPoints_eq (effectiveProject projectId) data.points
        { projectId := effectiveProject projectId } with ⟨hall, heq⟩ | ⟨⟨bad, hbad, hne⟩, herr⟩
      · exact Or.inl ⟨⟨h1, hsize, h3, hall⟩, heq⟩
      · obtain ⟨error, herr⟩ := herr
        exact Or.inr ⟨fun h => hne (h.points bad hbad), _, error, Prod.ext rfl herr⟩

theorem readBatch_accepted {projectId : ProjectId} {data : TimeseriesBatch}
    {override : Option Int} (h : Accepted projectId data override) :
    readBatch projectId data override = (noteAll projectId data.points, none) := by
  rcases readBatch_cases projectId data override with ⟨_, heq⟩ | ⟨hn, _⟩
  · exact heq
  · exact absurd h hn

/-- A rejected update leaves the service as it was. -/
theorem update_rejected {projectId : ProjectId} {data : TimeseriesBatch} {override : Option Int}
    (h : ¬ Accepted projectId data override) (service : WindowService) :
    (updateWindowIncremental projectId data override service).1 = service ∧
      isSuccessful (updateWindowIncremental projectId data override service).2.operation.code =
        false := by
  rcases readBatch_cases projectId data override with ⟨ha, _⟩ | ⟨_, result, error, heq⟩
  · exact absurd ha h
  · unfold updateWindowIncremental
    rw [heq]
    exact ⟨rfl, rfl⟩

/-! ## The report while the batch is read -/

theorem find_setSequenceUpdate (s s' : SequenceId)
    (change : SequenceWindowUpdate → SequenceWindowUpdate) (result : WindowUpdateResult) :
    (setSequenceUpdate s change result).sequenceUpdates.find s' =
      if s' = s then some (change (sequenceUpdateOf s result))
      else result.sequenceUpdates.find s' :=
  find_put ..

/-- An id is added once. -/
theorem mem_pushUnique (x y : SequenceId) (xs : List SequenceId) :
    y ∈ pushUnique x xs ↔ y = x ∨ y ∈ xs := by
  unfold pushUnique
  by_cases h : x ∈ xs
  · rw [if_pos h]
    exact ⟨Or.inr, fun h' => h'.elim (fun e => e ▸ h) id⟩
  · rw [if_neg h, List.mem_append, List.mem_singleton, or_comm]

theorem nodup_pushUnique (x : SequenceId) {xs : List SequenceId} (h : xs.Nodup) :
    (pushUnique x xs).Nodup := by
  unfold pushUnique
  split
  · exact h
  · rename_i hx
    refine List.nodup_append.mpr ⟨h, List.nodup_singleton x, fun a ha b hb hab => hx ?_⟩
    rw [← List.mem_singleton.mp hb, ← hab]
    exact ha

/-- The ids collected. -/
theorem mem_foldl_pushUnique {x : SequenceId} {ids seen : List SequenceId} :
    x ∈ ids.foldl (fun acc id => pushUnique id acc) seen ↔ x ∈ seen ∨ x ∈ ids := by
  induction ids generalizing seen with
  | nil => simp
  | cons id ids ih =>
      rw [List.foldl_cons, ih, mem_pushUnique, List.mem_cons]
      constructor
      · rintro ((h | h) | h)
        · exact Or.inr (Or.inl h)
        · exact Or.inl h
        · exact Or.inr (Or.inr h)
      · rintro (h | h | h)
        · exact Or.inl (Or.inr h)
        · exact Or.inl (Or.inl h)
        · exact Or.inr h

theorem nodup_foldl_pushUnique (ids : List SequenceId) {seen : List SequenceId}
    (h : seen.Nodup) : (ids.foldl (fun acc id => pushUnique id acc) seen).Nodup := by
  induction ids generalizing seen with
  | nil => exact h
  | cons id ids ih => exact ih (nodup_pushUnique id h)

/-- The union of id lists, each id once. -/
theorem unionIds_spec {α : Type} (idsOf : α → List SequenceId) (items : List α)
    {seen : List SequenceId} (h : seen.Nodup) :
    let union := items.foldl
      (fun seen item => (idsOf item).foldl (fun acc id => pushUnique id acc) seen) seen
    union.Nodup ∧ ∀ x, x ∈ union ↔ x ∈ seen ∨ ∃ item ∈ items, x ∈ idsOf item := by
  induction items generalizing seen with
  | nil => exact ⟨h, fun x => by simp⟩
  | cons item items ih =>
      obtain ⟨h1, h2⟩ := ih (nodup_foldl_pushUnique (idsOf item) h)
      refine ⟨h1, fun x => (h2 x).trans ?_⟩
      rw [mem_foldl_pushUnique]
      simp only [List.mem_cons, exists_eq_or_imp, or_assoc]

/-- The changed sequences are those of the points. -/
theorem noteAll_changed (p : ProjectId) (points : List RawTimeseriesPoint) :
    (noteAll p points).changedSequenceIds.Nodup ∧
      ∀ s, s ∈ (noteAll p points).changedSequenceIds ↔ ∃ q ∈ points, q.sequenceId = s := by
  have h : ∀ (points : List RawTimeseriesPoint) (result : WindowUpdateResult),
      result.changedSequenceIds.Nodup →
      (points.foldl notePoint result).changedSequenceIds.Nodup ∧
        ∀ s, s ∈ (points.foldl notePoint result).changedSequenceIds ↔
          s ∈ result.changedSequenceIds ∨ ∃ q ∈ points, q.sequenceId = s := by
    intro points
    induction points with
    | nil => exact fun result hn => ⟨hn, fun s => by simp⟩
    | cons q qs ih =>
        intro result hn
        obtain ⟨h1, h2⟩ := ih (notePoint result q) (nodup_pushUnique _ hn)
        refine ⟨h1, fun s => ?_⟩
        rw [List.foldl_cons, h2]
        show s ∈ pushUnique q.sequenceId result.changedSequenceIds ∨ _ ↔ _
        rw [mem_pushUnique]
        simp only [List.mem_cons, exists_eq_or_imp]
        constructor
        · rintro ((rfl | h) | h)
          · exact Or.inr (Or.inl rfl)
          · exact Or.inl h
          · exact Or.inr (Or.inr h)
        · rintro (h | rfl | h)
          · exact Or.inl (Or.inr h)
          · exact Or.inl (Or.inl rfl)
          · exact Or.inr h
  obtain ⟨h1, h2⟩ := h points { projectId := effectiveProject p } List.nodup_nil
  exact ⟨h1, fun s => by rw [noteAll, h2]; simp⟩

/-- The affected range of one sequence, as the batch loop computes it. -/
def affectedBy (points : List RawTimeseriesPoint) (update : SequenceWindowUpdate) :
    SequenceWindowUpdate :=
  points.foldl (fun acc point => widenUpdate point.time acc) update

/-- Noting a point widens the update of its sequence. -/
theorem notePoint_updateOf (s : SequenceId) (result : WindowUpdateResult)
    (q : RawTimeseriesPoint) :
    sequenceUpdateOf s (notePoint result q) =
      if q.sequenceId = s then widenUpdate q.time (sequenceUpdateOf s result)
      else sequenceUpdateOf s result := by
  have hfind : (notePoint result q).sequenceUpdates.find s =
      if s = q.sequenceId then some (widenUpdate q.time (sequenceUpdateOf q.sequenceId result))
      else result.sequenceUpdates.find s := find_setSequenceUpdate ..
  rw [sequenceUpdateOf, hfind]
  by_cases h : q.sequenceId = s
  · simp [h]
  · rw [if_neg h, if_neg fun e => h e.symm]
    rfl

/-- One sequence's part of the report. -/
theorem noteAll_updateOf (p : ProjectId) (points : List RawTimeseriesPoint) (s : SequenceId) :
    sequenceUpdateOf s (noteAll p points) = affectedBy (incomingFor s points) {} := by
  have h : ∀ (points : List RawTimeseriesPoint) (result : WindowUpdateResult),
      sequenceUpdateOf s (points.foldl notePoint result) =
        affectedBy (incomingFor s points) (sequenceUpdateOf s result) := by
    intro points
    induction points with
    | nil => exact fun _ => rfl
    | cons q qs ih =>
        intro result
        rw [List.foldl_cons, ih, notePoint_updateOf]
        by_cases hq : q.sequenceId = s
        · have hin : incomingFor s (q :: qs) = q :: incomingFor s qs := by
            simp [incomingFor, hq]
          rw [hin, if_pos hq]
          rfl
        · have hin : incomingFor s (q :: qs) = incomingFor s qs := by
            simp [incomingFor, hq]
          rw [hin, if_neg hq]
  exact h points _

/-- Noting points widens the bounds of an update, and changes nothing else. -/
theorem affectedBy_bounds (points : List RawTimeseriesPoint) (update : SequenceWindowUpdate) :
    (affectedBy points update).incrementalSafe = update.incrementalSafe ∧
    (affectedBy points update).windowEvicted = update.windowEvicted ∧
    (∀ q ∈ points, ∃ a b, (affectedBy points update).affectedStartTime = some a ∧
      (affectedBy points update).affectedEndTime = some b ∧ a ≤ q.time ∧ q.time ≤ b) ∧
    (∀ a, update.affectedStartTime = some a →
      ∃ a', (affectedBy points update).affectedStartTime = some a' ∧ a' ≤ a) ∧
    (∀ b, update.affectedEndTime = some b →
      ∃ b', (affectedBy points update).affectedEndTime = some b' ∧ b ≤ b') := by
  induction points generalizing update with
  | nil =>
      exact ⟨rfl, rfl, by simp, fun a h => ⟨a, h, le_refl _⟩, fun b h => ⟨b, h, le_refl _⟩⟩
  | cons q qs ih =>
      obtain ⟨h1, h2, h3, h4, h5⟩ := ih (widenUpdate q.time update)
      have hs : ∃ a, (widenUpdate q.time update).affectedStartTime = some a ∧ a ≤ q.time ∧
          ∀ a', update.affectedStartTime = some a' → a ≤ a' := by
        unfold widenUpdate widenStart
        cases ha : update.affectedStartTime with
        | none => exact ⟨q.time, rfl, le_refl _, fun _ h => nomatch h⟩
        | some a =>
            by_cases hlt : q.time < a
            · exact ⟨q.time, by simp [hlt], le_refl _, fun a' h =>
                Option.some.inj h ▸ le_of_lt hlt⟩
            · exact ⟨a, by simp [hlt], not_lt.mp hlt, fun a' h => Option.some.inj h ▸ le_refl _⟩
      have he : ∃ b, (widenUpdate q.time update).affectedEndTime = some b ∧ q.time ≤ b ∧
          ∀ b', update.affectedEndTime = some b' → b' ≤ b := by
        unfold widenUpdate widenEnd
        cases hb : update.affectedEndTime with
        | none => exact ⟨q.time, rfl, le_refl _, fun _ h => nomatch h⟩
        | some b =>
            by_cases hlt : b < q.time
            · exact ⟨q.time, by simp [hlt], le_refl _, fun b' h =>
                Option.some.inj h ▸ le_of_lt hlt⟩
            · exact ⟨b, by simp [hlt], not_lt.mp hlt, fun b' h => Option.some.inj h ▸ le_refl _⟩
      obtain ⟨a, ha, haq, hamin⟩ := hs
      obtain ⟨b, hb, hbq, hbmax⟩ := he
      obtain ⟨a', ha', haa'⟩ := h4 a ha
      obtain ⟨b', hb', hbb'⟩ := h5 b hb
      refine ⟨h1, h2, fun r hr => ?_, fun c hc => ⟨a', ha', le_trans haa' (hamin c hc)⟩,
        fun c hc => ⟨b', hb', le_trans (hbmax c hc) hbb'⟩⟩
      rcases List.mem_cons.mp hr with rfl | hr'
      · exact ⟨a', b', ha', hb', le_trans haa' haq, le_trans hbq hbb'⟩
      · exact h3 r hr'

/-- Both ends of the affected range are times of points. -/
theorem affectedBy_attained (points : List RawTimeseriesPoint) (update : SequenceWindowUpdate) :
    (∀ a, (affectedBy points update).affectedStartTime = some a →
      update.affectedStartTime = some a ∨ ∃ q ∈ points, q.time = a) ∧
    (∀ b, (affectedBy points update).affectedEndTime = some b →
      update.affectedEndTime = some b ∨ ∃ q ∈ points, q.time = b) := by
  induction points generalizing update with
  | nil => exact ⟨fun a h => Or.inl h, fun b h => Or.inl h⟩
  | cons q qs ih =>
      obtain ⟨hstart, hend⟩ := ih (widenUpdate q.time update)
      have hs : ∀ a, (widenUpdate q.time update).affectedStartTime = some a →
          update.affectedStartTime = some a ∨ q.time = a := by
        intro a h
        unfold widenUpdate widenStart at h
        cases ha : update.affectedStartTime with
        | none => exact Or.inr (by simpa [ha] using h)
        | some c =>
            by_cases hlt : q.time < c
            · exact Or.inr (by simpa [ha, hlt] using h)
            · exact Or.inl (by simpa [ha, hlt] using h)
      have he : ∀ b, (widenUpdate q.time update).affectedEndTime = some b →
          update.affectedEndTime = some b ∨ q.time = b := by
        intro b h
        unfold widenUpdate widenEnd at h
        cases hb : update.affectedEndTime with
        | none => exact Or.inr (by simpa [hb] using h)
        | some c =>
            by_cases hlt : c < q.time
            · exact Or.inr (by simpa [hb, hlt] using h)
            · exact Or.inl (by simpa [hb, hlt] using h)
      refine ⟨fun a h => ?_, fun b h => ?_⟩
      · rcases hstart a h with h' | ⟨r, hr, hra⟩
        · exact (hs a h').imp id fun hq => ⟨q, List.mem_cons_self .., hq⟩
        · exact Or.inr ⟨r, List.mem_cons_of_mem _ hr, hra⟩
      · rcases hend b h with h' | ⟨r, hr, hrb⟩
        · exact (he b h').imp id fun hq => ⟨q, List.mem_cons_self .., hq⟩
        · exact Or.inr ⟨r, List.mem_cons_of_mem _ hr, hrb⟩

theorem mem_incomingFor {s : SequenceId} {points : List RawTimeseriesPoint}
    {q : RawTimeseriesPoint} : q ∈ incomingFor s points ↔ q ∈ points ∧ q.sequenceId = s := by
  simp [incomingFor]

theorem noteAll_projectId (p : ProjectId) (points : List RawTimeseriesPoint) :
    (noteAll p points).projectId = effectiveProject p := by
  have h : ∀ (points : List RawTimeseriesPoint) (result : WindowUpdateResult),
      (points.foldl notePoint result).projectId = result.projectId := by
    intro points
    induction points with
    | nil => exact fun _ => rfl
    | cons q qs ih => exact fun result => ih (notePoint result q)
  exact h points _

/-! ## The state after the metadata step -/

/-- The sequences an accepted batch touches, and their keys, are distinct. -/
theorem createSequences_contentOf (project : ProjectId) (ids : List SequenceId)
    (windows : Table String SequenceWindow) (key : String) :
    contentOf key (ids.foldl
      (fun acc s => ensure (scopedSequenceKey project s) {} acc) windows) =
      contentOf key windows := by
  induction ids generalizing windows with
  | nil => rfl
  | cons s ids ih => rw [List.foldl_cons, ih, ensure_contentOf]

theorem createSequences_valid {windows : Table String SequenceWindow} (hv : AllValid windows)
    (project : ProjectId) (ids : List SequenceId) :
    AllValid (ids.foldl (fun acc s => ensure (scopedSequenceKey project s) {} acc) windows) := by
  induction ids generalizing windows with
  | nil => exact hv
  | cons s ids ih => exact ih (ensure_allValid hv _)

/-- The windows after some have been created. -/
theorem mem_createSequences (project : ProjectId) (ids : List SequenceId)
    (windows : Table String SequenceWindow) (key : String) :
    key ∈ (ids.foldl (fun acc s => ensure (scopedSequenceKey project s) {} acc) windows).keys ↔
      key ∈ windows.keys ∨ ∃ s ∈ ids, key = scopedSequenceKey project s := by
  induction ids generalizing windows with
  | nil => simp
  | cons s ids ih =>
      rw [List.foldl_cons, ih, mem_keys_ensure]
      simp only [List.mem_cons, exists_eq_or_imp]
      constructor
      · rintro ((h | h) | h)
        · exact Or.inr (Or.inl h)
        · exact Or.inl h
        · exact Or.inr (Or.inr h)
      · rintro (h | h | h)
        · exact Or.inl (Or.inr h)
        · exact Or.inl (Or.inl h)
        · exact Or.inr h

/-! ## The sequence steps -/

/-- The windows after the merges. -/
theorem runSequenceSteps_fst (project : ProjectId) (preps : List PreparedSequenceUpdate)
    (windows : Table String SequenceWindow) (result : WindowUpdateResult) :
    (runSequenceSteps project preps (windows, result)).1 =
      preps.foldl (fun acc prepared => sequenceStep project prepared acc) windows := by
  induction preps generalizing windows result with
  | nil => rfl
  | cons prepared preps ih => exact ih _ _

theorem sequenceStep_valid {windows : Table String SequenceWindow} (hv : AllValid windows)
    (project : ProjectId) {prepared : PreparedSequenceUpdate}
    (hi : Ascending RawTimeseriesPoint.time prepared.incoming) :
    AllValid (sequenceStep project prepared windows) :=
  adjust_allValid hv _ fun _ hw => updateSequence_valid hw hi

/-- The content after a merge. -/
theorem sequenceStep_contentOf {windows : Table String SequenceWindow} (hv : AllValid windows)
    (project : ProjectId) {prepared : PreparedSequenceUpdate}
    (hi : Ascending RawTimeseriesPoint.time prepared.incoming)
    (hk : scopedSequenceKey project prepared.sequenceId ∈ windows.keys) (key : String) :
    contentOf key (sequenceStep project prepared windows) =
      if key = scopedSequenceKey project prepared.sequenceId then
        assignAll RawTimeseriesPoint.time prepared.incoming (contentOf key windows)
      else contentOf key windows := by
  split
  · rename_i h
    subst h
    obtain ⟨w, hw⟩ := Option.isSome_iff_exists.mp ((windows.mem_keys _).mp hk)
    have hnew : (sequenceStep project prepared windows).find
        (scopedSequenceKey project prepared.sequenceId) = some (updateSequence w prepared).1 := by
      rw [sequenceStep, find_adjust_self, hw]
      rfl
    rw [contentOf_some hnew, contentOf_some hw]
    exact updateSequence_content (hv _ w hw) hi
  · rename_i h
    exact adjust_contentOf_of_ne h _ windows

/-- The points of a batch that go to one key. -/
def batchAt (project : ProjectId) (key : String) (points : List RawTimeseriesPoint) :
    List RawTimeseriesPoint :=
  points.filter (fun q => scopedSequenceKey project q.sequenceId = key)

theorem batchAt_scoped (project : ProjectId) (s : SequenceId) (points : List RawTimeseriesPoint) :
    batchAt project (scopedSequenceKey project s) points = incomingFor s points :=
  List.filter_congr fun q _ => by simp [scopedSequenceKey_inj]

/-- Prepared updates of distinct sequences, run one after another. -/
theorem sequenceSteps_spec (project : ProjectId) (points : List RawTimeseriesPoint)
    {ids : List SequenceId} (hids : ids.Nodup) {windows : Table String SequenceWindow}
    (hv : AllValid windows) (hk : ∀ s ∈ ids, scopedSequenceKey project s ∈ windows.keys) :
    let after := (preparedUpdates points ids).foldl
      (fun acc prepared => sequenceStep project prepared acc) windows
    AllValid after ∧ after.keys = windows.keys ∧
      (∀ s ∈ ids, contentOf (scopedSequenceKey project s) after =
        assignAll RawTimeseriesPoint.time (incomingFor s points)
          (contentOf (scopedSequenceKey project s) windows)) ∧
      ∀ key, (∀ s ∈ ids, key ≠ scopedSequenceKey project s) →
        after.find key = windows.find key := by
  induction ids generalizing windows with
  | nil => exact ⟨hv, rfl, by simp, fun _ _ => rfl⟩
  | cons s ids ih =>
      obtain ⟨hs, hids'⟩ := List.nodup_cons.mp hids
      have hi := prepareUpdate_ascending s (incomingFor s points)
      have hid := prepareUpdate_sequenceId s (incomingFor s points)
      have hstep := sequenceStep_contentOf hv project hi (by rw [hid]; exact hk s (by simp))
      rw [hid] at hstep
      obtain ⟨h1, h2, h3, h4⟩ := ih hids' (sequenceStep_valid hv project hi)
        (fun t ht => hk t (List.mem_cons_of_mem _ ht))
      refine ⟨h1, h2, fun t ht => ?_, fun key hkey => ?_⟩
      · rcases List.mem_cons.mp ht with rfl | ht'
        · have hsame : contentOf (scopedSequenceKey project t)
              ((preparedUpdates points ids).foldl
                (fun acc prepared => sequenceStep project prepared acc)
                (sequenceStep project (prepareUpdate t (incomingFor t points)) windows)) =
              contentOf (scopedSequenceKey project t)
                (sequenceStep project (prepareUpdate t (incomingFor t points)) windows) :=
            contentOf_congr (h4 _ fun u hu e => hs (scopedSequenceKey_inj.mp e ▸ hu))
          refine hsame.trans ?_
          rw [hstep, if_pos rfl]
          exact prepareUpdate_assignAll t _ (hv.ascending _)
        · have hne : scopedSequenceKey project t ≠ scopedSequenceKey project s :=
            fun e => hs (scopedSequenceKey_inj.mp e ▸ ht')
          refine (h3 t ht').trans ?_
          rw [hstep, if_neg hne]
      · refine (h4 key fun t ht => hkey t (List.mem_cons_of_mem _ ht)).trans ?_
        refine find_adjust_of_ne ?_ _ _
        rw [hid]
        exact hkey s (by simp)

/-- Reports that agree on everything but the per-sequence entries and the two
    aggregate flags. -/
structure SameHeader (r r' : WindowUpdateResult) : Prop where
  projectId : r'.projectId = r.projectId
  changedSequenceIds : r'.changedSequenceIds = r.changedSequenceIds
  affectedStartTime : r'.affectedStartTime = r.affectedStartTime
  affectedEndTime : r'.affectedEndTime = r.affectedEndTime
  windowStartTime : r'.windowStartTime = r.windowStartTime
  updateGeneration : r'.updateGeneration = r.updateGeneration

theorem SameHeader.refl (r : WindowUpdateResult) : SameHeader r r := ⟨rfl, rfl, rfl, rfl, rfl, rfl⟩

theorem SameHeader.trans {r r' r'' : WindowUpdateResult} (h : SameHeader r r')
    (h' : SameHeader r' r'') : SameHeader r r'' :=
  ⟨h'.projectId.trans h.projectId, h'.changedSequenceIds.trans h.changedSequenceIds,
    h'.affectedStartTime.trans h.affectedStartTime, h'.affectedEndTime.trans h.affectedEndTime,
    h'.windowStartTime.trans h.windowStartTime, h'.updateGeneration.trans h.updateGeneration⟩

/-- The update of a sequence after one has been noted. -/
theorem updateOf_setSequenceUpdate (s s' : SequenceId)
    (change : SequenceWindowUpdate → SequenceWindowUpdate) (result : WindowUpdateResult) :
    sequenceUpdateOf s' (setSequenceUpdate s change result) =
      if s' = s then change (sequenceUpdateOf s result) else sequenceUpdateOf s' result := by
  rw [sequenceUpdateOf, find_setSequenceUpdate]
  split
  · rfl
  · rfl

/-- The safety flags: each sequence reports on the window it found. -/
theorem runSequenceSteps_report (project : ProjectId) (points : List RawTimeseriesPoint)
    {ids : List SequenceId} (hids : ids.Nodup) (windows : Table String SequenceWindow)
    (result : WindowUpdateResult) :
    let after := (runSequenceSteps project (preparedUpdates points ids) (windows, result)).2
    SameHeader result after ∧
      (∀ s ∈ ids, sequenceUpdateOf s after =
        { sequenceUpdateOf s result with
          incrementalSafe :=
            sequenceSafe project (prepareUpdate s (incomingFor s points)) windows }) ∧
      ∀ s, s ∉ ids → sequenceUpdateOf s after = sequenceUpdateOf s result := by
  induction ids generalizing windows result with
  | nil => exact ⟨SameHeader.refl _, by simp, fun _ _ => rfl⟩
  | cons s ids ih =>
      obtain ⟨hs, hids'⟩ := List.nodup_cons.mp hids
      have hid : ∀ t, (prepareUpdate t (incomingFor t points)).sequenceId = t :=
        fun t => prepareUpdate_sequenceId t _
      obtain ⟨h1, h2, h3⟩ := ih hids'
        (sequenceStep project (prepareUpdate s (incomingFor s points)) windows)
        (noteSafety (prepareUpdate s (incomingFor s points)).sequenceId
          (sequenceSafe project (prepareUpdate s (incomingFor s points)) windows) result)
      have h0 : SameHeader result
          (noteSafety (prepareUpdate s (incomingFor s points)).sequenceId
            (sequenceSafe project (prepareUpdate s (incomingFor s points)) windows) result) :=
        ⟨rfl, rfl, rfl, rfl, rfl, rfl⟩
      refine ⟨h0.trans h1, fun t ht => ?_, fun t ht => ?_⟩
      · rcases List.mem_cons.mp ht with rfl | ht'
        · refine (h3 t hs).trans ?_
          rw [noteSafety, updateOf_setSequenceUpdate, hid, if_pos rfl]
          rfl
        · have hne : t ≠ s := fun e => hs (e ▸ ht')
          have hsafe : sequenceSafe project (prepareUpdate t (incomingFor t points))
              (sequenceStep project (prepareUpdate s (incomingFor s points)) windows) =
              sequenceSafe project (prepareUpdate t (incomingFor t points)) windows := by
            unfold sequenceSafe
            rw [hid, sequenceStep, hid, find_adjust_of_ne fun e => hne (scopedSequenceKey_inj.mp e)]
          refine (h2 t ht').trans ?_
          rw [hsafe, noteSafety, updateOf_setSequenceUpdate, hid, if_neg hne]
          rfl
      · have hne : t ≠ s := fun e => ht (by simp [e])
        refine (h3 t fun h => ht (List.mem_cons_of_mem _ h)).trans ?_
        rw [noteSafety, updateOf_setSequenceUpdate, hid, if_neg hne]
        rfl

/-! ## The eviction report -/

/-- The flags after the evictions have been marked. -/
theorem markEvicted_spec (evicted : List SequenceId) {ids : List SequenceId} (hids : ids.Nodup)
    (result : WindowUpdateResult) :
    let after := ids.foldl (fun acc s =>
      setSequenceUpdate s (fun u => { u with windowEvicted := decide (s ∈ evicted) }) acc) result
    SameHeader result after ∧
      (∀ s ∈ ids, sequenceUpdateOf s after =
        { sequenceUpdateOf s result with windowEvicted := decide (s ∈ evicted) }) ∧
      ∀ s, s ∉ ids → sequenceUpdateOf s after = sequenceUpdateOf s result := by
  induction ids generalizing result with
  | nil => exact ⟨SameHeader.refl _, by simp, fun _ _ => rfl⟩
  | cons s ids ih =>
      obtain ⟨hs, hids'⟩ := List.nodup_cons.mp hids
      obtain ⟨h1, h2, h3⟩ := ih hids'
        (setSequenceUpdate s (fun u => { u with windowEvicted := decide (s ∈ evicted) }) result)
      have h0 : SameHeader result
          (setSequenceUpdate s (fun u => { u with windowEvicted := decide (s ∈ evicted) })
            result) := ⟨rfl, rfl, rfl, rfl, rfl, rfl⟩
      refine ⟨h0.trans h1, fun t ht => ?_, fun t ht => ?_⟩
      · rcases List.mem_cons.mp ht with rfl | ht'
        · refine (h3 t hs).trans ?_
          rw [updateOf_setSequenceUpdate, if_pos rfl]
        · have hne : t ≠ s := fun e => hs (e ▸ ht')
          refine (h2 t ht').trans ?_
          rw [updateOf_setSequenceUpdate, if_neg hne]
      · refine (h3 t fun h => ht (List.mem_cons_of_mem _ h)).trans ?_
        rw [updateOf_setSequenceUpdate, if_neg fun e => ht (by simp [e])]

/-- Noting an eviction. -/
theorem noteEviction_updateOf (start : Timestamp) (s t : SequenceId)
    (result : WindowUpdateResult) :
    sequenceUpdateOf t (noteEviction start s result) =
      if t = s then
        { sequenceUpdateOf s result with
          windowEvicted := true
          affectedStartTime := some ((sequenceUpdateOf s result).affectedStartTime.getD start)
          affectedEndTime := some ((sequenceUpdateOf s result).affectedEndTime.getD
            (result.affectedEndTime.getD start)) }
      else sequenceUpdateOf t result :=
  updateOf_setSequenceUpdate s t
    (fun update =>
      { update with
        windowEvicted := true
        affectedStartTime := some (update.affectedStartTime.getD start)
        affectedEndTime :=
          some (update.affectedEndTime.getD (result.affectedEndTime.getD start)) }) result

/-- What the eviction report leaves. -/
structure EvictionReport (evicted : List SequenceId) (r r' : WindowUpdateResult) : Prop where
  projectId : r'.projectId = r.projectId
  affectedStartTime : r'.affectedStartTime = r.affectedStartTime
  affectedEndTime : r'.affectedEndTime = r.affectedEndTime
  windowStartTime : r'.windowStartTime = r.windowStartTime
  updateGeneration : r'.updateGeneration = r.updateGeneration
  changed : ∀ s, s ∈ r'.changedSequenceIds ↔ s ∈ r.changedSequenceIds ∨ s ∈ evicted
  safe : ∀ s, (sequenceUpdateOf s r').incrementalSafe = (sequenceUpdateOf s r).incrementalSafe
  keepsStart : ∀ s a, (sequenceUpdateOf s r).affectedStartTime = some a →
    (sequenceUpdateOf s r').affectedStartTime = some a
  keepsEnd : ∀ s b, (sequenceUpdateOf s r).affectedEndTime = some b →
    (sequenceUpdateOf s r').affectedEndTime = some b
  evictedFlag : ∀ s, (sequenceUpdateOf s r').windowEvicted =
    (decide (s ∈ evicted) || (sequenceUpdateOf s r).windowEvicted)

/-- Noting all evictions. -/
theorem noteEvictions_spec (start : Timestamp) (evicted : List SequenceId)
    (result : WindowUpdateResult) :
    EvictionReport evicted result
      (evicted.foldl (fun acc s => noteEviction start s acc) result) := by
  induction evicted generalizing result with
  | nil =>
      exact ⟨rfl, rfl, rfl, rfl, rfl, by simp, fun _ => rfl, fun _ _ h => h, fun _ _ h => h,
        by simp⟩
  | cons s evicted ih =>
      have hih := ih (noteEviction start s result)
      refine ⟨hih.projectId, hih.affectedStartTime, hih.affectedEndTime, hih.windowStartTime,
        hih.updateGeneration, fun t => ?_, fun t => ?_, fun t a ha => ?_, fun t b hb => ?_,
        fun t => ?_⟩
      · refine (hih.changed t).trans ?_
        show t ∈ pushUnique s result.changedSequenceIds ∨ _ ↔ _
        rw [mem_pushUnique, List.mem_cons]
        constructor
        · rintro ((h | h) | h)
          · exact Or.inr (Or.inl h)
          · exact Or.inl h
          · exact Or.inr (Or.inr h)
        · rintro (h | h | h)
          · exact Or.inl (Or.inr h)
          · exact Or.inl (Or.inl h)
          · exact Or.inr h
      · refine (hih.safe t).trans ?_
        rw [noteEviction_updateOf]
        split
        · rename_i h
          rw [h]
        · rfl
      · refine hih.keepsStart t a ?_
        rw [noteEviction_updateOf]
        split
        · rename_i h
          subst h
          simp [ha]
        · exact ha
      · refine hih.keepsEnd t b ?_
        rw [noteEviction_updateOf]
        split
        · rename_i h
          subst h
          simp [hb]
        · exact hb
      · refine (hih.evictedFlag t).trans ?_
        rw [noteEviction_updateOf]
        by_cases h : t = s
        · simp [h]
        · simp [h]

/-- What the report says of the evictions. -/
theorem reportEvictions_spec (start : Timestamp) (evicted : List SequenceId)
    {result : WindowUpdateResult} (hn : result.changedSequenceIds.Nodup)
    (hfresh : ∀ s, (sequenceUpdateOf s result).windowEvicted = false) :
    EvictionReport evicted result (reportEvictions start evicted result) := by
  obtain ⟨h1, h2, h3⟩ := markEvicted_spec evicted hn
    { result with windowEvicted := !evicted.isEmpty }
  have hmid : ∀ s, sequenceUpdateOf s (result.changedSequenceIds.foldl (fun acc s =>
      setSequenceUpdate s (fun u => { u with windowEvicted := decide (s ∈ evicted) }) acc)
        { result with windowEvicted := !evicted.isEmpty }) =
      { sequenceUpdateOf s result with
        windowEvicted := decide (s ∈ result.changedSequenceIds) && decide (s ∈ evicted) } := by
    intro s
    by_cases hs : s ∈ result.changedSequenceIds
    · refine (h2 s hs).trans ?_
      simp only [hs, decide_true, Bool.true_and]
      rfl
    · refine (h3 s hs).trans ?_
      have := hfresh s
      simp only [hs, decide_false, Bool.false_and]
      rw [← this]
      rfl
  have hev := noteEvictions_spec start evicted (result.changedSequenceIds.foldl (fun acc s =>
      setSequenceUpdate s (fun u => { u with windowEvicted := decide (s ∈ evicted) }) acc)
        { result with windowEvicted := !evicted.isEmpty })
  refine ⟨hev.projectId.trans h1.projectId, hev.affectedStartTime.trans h1.affectedStartTime,
    hev.affectedEndTime.trans h1.affectedEndTime, hev.windowStartTime.trans h1.windowStartTime,
    hev.updateGeneration.trans h1.updateGeneration, fun s => ?_, fun s => ?_, fun s a ha => ?_,
    fun s b hb => ?_, fun s => ?_⟩
  · refine (hev.changed s).trans ?_
    rw [h1.changedSequenceIds]
  · refine (hev.safe s).trans ?_
    rw [hmid]
  · refine hev.keepsStart s a ?_
    rw [hmid]
    exact ha
  · refine hev.keepsEnd s b ?_
    rw [hmid]
    exact hb
  · refine (hev.evictedFlag s).trans ?_
    rw [hmid, hfresh s]
    by_cases h : s ∈ evicted <;> simp [h]

theorem reportEvictions_windowStartTime (start : Timestamp) (evicted : List SequenceId)
    (result : WindowUpdateResult) :
    (reportEvictions start evicted result).windowStartTime = result.windowStartTime := by
  have hmark : ∀ (ids : List SequenceId) (r : WindowUpdateResult),
      (ids.foldl (fun acc s => setSequenceUpdate s
        (fun u => { u with windowEvicted := decide (s ∈ evicted) }) acc) r).windowStartTime =
          r.windowStartTime := by
    intro ids
    induction ids with
    | nil => exact fun _ => rfl
    | cons s ids ih => exact fun r => ih _
  exact (noteEvictions_spec start evicted _).windowStartTime.trans (hmark _ _)

/-! ## The whole update -/

/-- The watermark an accepted batch leaves. -/
def watermarkAfter (p : ProjectId) (data : TimeseriesBatch) (service : WindowService) :
    Timestamp :=
  advanceWatermark (service.watermarks.find (effectiveProject p)) data.points

/-- The window size an accepted batch runs with. -/
def windowSizeAfter (p : ProjectId) (override : Option Int) (service : WindowService) : Int :=
  override.getD (windowSize p service)

/-- Where an accepted batch evicts from. -/
def startAfter (p : ProjectId) (data : TimeseriesBatch) (override : Option Int)
    (service : WindowService) : Timestamp :=
  windowStart (watermarkAfter p data service) (windowSizeAfter p override service)

/-- The report before the evictions are added. -/
def reportBefore (p : ProjectId) (data : TimeseriesBatch) (override : Option Int)
    (service : WindowService) : WindowUpdateResult :=
  let project := effectiveProject p
  let noted := noteAll p data.points
  let opened := metadataStep project override data.points noted.changedSequenceIds service
  (runSequenceSteps project (preparedUpdates data.points noted.changedSequenceIds)
    (opened.1.sequenceWindows,
      { noted with
        updateGeneration := opened.2.generation
        windowStartTime := some opened.2.windowStart
        incrementalSafe := true })).2

/-- The windows before the prune. -/
def windowsBefore (p : ProjectId) (data : TimeseriesBatch) (service : WindowService) :
    Table String SequenceWindow :=
  let project := effectiveProject p
  let ids := (noteAll p data.points).changedSequenceIds
  (preparedUpdates data.points ids).foldl
    (fun acc prepared => sequenceStep project prepared acc)
    (ids.foldl (fun acc s => ensure (scopedSequenceKey project s) {} acc)
      service.sequenceWindows)

/-- The start that the metadata section computes. -/
theorem metadataStep_windowStart (p : ProjectId) (data : TimeseriesBatch)
    (override : Option Int) (ids : List SequenceId) (service : WindowService) :
    (metadataStep (effectiveProject p) override data.points ids service).2.windowStart =
      startAfter p data override service := by
  unfold metadataStep startAfter windowSizeAfter watermarkAfter windowSize
  cases override with
  | none => rfl
  | some size => simp [applyOverride]

/-- An accepted update, cut into its parts. -/
theorem update_eq {p : ProjectId} {data : TimeseriesBatch} {override : Option Int}
    (hacc : Accepted p data override) (service : WindowService) :
    let project := effectiveProject p
    let opened := metadataStep project override data.points
      (noteAll p data.points).changedSequenceIds service
    let pruned := pruneExpiredPoints (startAfter p data override service)
      (projectKeys project opened.1) (windowsBefore p data service)
    updateWindowIncremental p data override service =
      ({ opened.1 with sequenceWindows := pruned.1 },
        { reportEvictions (startAfter p data override service)
            (pruned.2.map (stripPrefix (scopePrefix project)))
            (reportBefore p data override service) with
          operation := okResult data.points.length "hot window updated" }) := by
  have hw := metadataStep_windowStart p data override
    (noteAll p data.points).changedSequenceIds service
  have hf := runSequenceSteps_fst (effectiveProject p)
    (preparedUpdates data.points (noteAll p data.points).changedSequenceIds)
  unfold updateWindowIncremental
  rw [readBatch_accepted hacc]
  simp only [← hw, windowsBefore, reportBefore]
  simp only [hf]
  rfl

theorem update_watermarks {p : ProjectId} {data : TimeseriesBatch} {override : Option Int}
    (hacc : Accepted p data override) (service : WindowService) :
    (updateWindowIncremental p data override service).1.watermarks =
      put (effectiveProject p) (watermarkAfter p data service) service.watermarks := by
  rw [update_eq hacc]
  rfl

theorem update_windowSizes {p : ProjectId} {data : TimeseriesBatch} {override : Option Int}
    (hacc : Accepted p data override) (service : WindowService) :
    (updateWindowIncremental p data override service).1.windowSizes =
      applyOverride (effectiveProject p) override service.windowSizes := by
  rw [update_eq hacc]
  rfl

/-- The generations after an update. -/
theorem update_updateGenerations {p : ProjectId} {data : TimeseriesBatch}
    {override : Option Int} (hacc : Accepted p data override) (service : WindowService) :
    (updateWindowIncremental p data override service).1.updateGenerations =
      put (effectiveProject p)
        (nextGeneration ((service.updateGenerations.find (effectiveProject p)).getD 0))
        service.updateGenerations := by
  rw [update_eq hacc]
  rfl

/-- The size of the window after an update. -/
theorem update_windowSize {p : ProjectId} {data : TimeseriesBatch} {override : Option Int}
    (hacc : Accepted p data override) (service : WindowService) :
    windowSize p (updateWindowIncremental p data override service).1 =
      windowSizeAfter p override service := by
  unfold windowSize
  rw [update_windowSizes hacc]
  cases override with
  | none => rfl
  | some size => simp [windowSizeAfter, applyOverride]

/-- The windows before the prune: the batch is assigned, key by key. -/
theorem windowsBefore_spec {windows : Table String SequenceWindow} {service : WindowService}
    (hw : service.sequenceWindows = windows) (hv : AllValid windows) (p : ProjectId)
    (data : TimeseriesBatch) :
    AllValid (windowsBefore p data service) ∧
      (∀ key, contentOf key (windowsBefore p data service) =
        assignAll RawTimeseriesPoint.time (batchAt (effectiveProject p) key data.points)
          (contentOf key windows)) ∧
      ∀ key, key ∈ (windowsBefore p data service).keys ↔
        key ∈ windows.keys ∨
          ∃ q ∈ data.points, key = scopedSequenceKey (effectiveProject p) q.sequenceId := by
  subst hw
  obtain ⟨hn, hmem⟩ := noteAll_changed p data.points
  have hcv := createSequences_valid hv (effectiveProject p)
    (noteAll p data.points).changedSequenceIds
  have hkeys := mem_createSequences (effectiveProject p)
    (noteAll p data.points).changedSequenceIds service.sequenceWindows
  obtain ⟨h1, h2, h3, h4⟩ := sequenceSteps_spec (effectiveProject p) data.points hn hcv
    (fun s hs => (hkeys _).mpr (Or.inr ⟨s, hs, rfl⟩))
  refine ⟨h1, fun key => ?_, fun key => ?_⟩
  · by_cases hk : ∃ s ∈ (noteAll p data.points).changedSequenceIds,
        key = scopedSequenceKey (effectiveProject p) s
    · obtain ⟨s, hs, rfl⟩ := hk
      refine (h3 s hs).trans ?_
      rw [createSequences_contentOf, batchAt_scoped]
    · have hnone : batchAt (effectiveProject p) key data.points = [] := by
        refine List.filter_eq_nil_iff.mpr fun q hq he => hk ?_
        exact ⟨q.sequenceId, (hmem _).mpr ⟨q, hq, rfl⟩, (of_decide_eq_true he).symm⟩
      rw [hnone, assignAll_nil, ← createSequences_contentOf (effectiveProject p)
        (noteAll p data.points).changedSequenceIds service.sequenceWindows key]
      exact contentOf_congr (h4 key fun s hs e => hk ⟨s, hs, e⟩)
  · rw [windowsBefore, h2, hkeys]
    refine or_congr_right ?_
    constructor
    · rintro ⟨s, hs, rfl⟩
      obtain ⟨q, hq, rfl⟩ := (hmem s).mp hs
      exact ⟨q, hq, rfl⟩
    · rintro ⟨q, hq, rfl⟩
      exact ⟨q.sequenceId, (hmem _).mpr ⟨q, hq, rfl⟩, rfl⟩

theorem contentOf_of_not_mem {key : String} {windows : Table String SequenceWindow}
    (h : key ∉ windows.keys) : contentOf key windows = [] := by
  refine contentOf_none ?_
  cases hf : windows.find key with
  | none => rfl
  | some w => exact absurd ((windows.mem_keys key).mpr (by simp [hf])) h

/-- **What an accepted update stores.**  Under the project's prefix the batch is
    assigned and everything older than the window start is dropped; no other key
    changes. -/
theorem update_contentOf {p : ProjectId} {data : TimeseriesBatch} {override : Option Int}
    (hacc : Accepted p data override) {service : WindowService}
    (hv : AllValid service.sequenceWindows) (key : String) :
    contentOf key (updateWindowIncremental p data override service).1.sequenceWindows =
      if hasPrefix (scopePrefix (effectiveProject p)) key then
        (assignAll RawTimeseriesPoint.time (batchAt (effectiveProject p) key data.points)
          (contentOf key service.sequenceWindows)).filter
            (fun q => decide (startAfter p data override service ≤ q.time))
      else contentOf key service.sequenceWindows := by
  obtain ⟨h1, h2, h3⟩ := windowsBefore_spec rfl hv p data
  rw [update_eq hacc]
  show contentOf key (pruneExpiredPoints _ _ _).1 = _
  rw [pruneExpiredPoints_contentOf h1, h2]
  by_cases hpre : hasPrefix (scopePrefix (effectiveProject p)) key = true
  · rw [if_pos hpre]
    split
    · rfl
    · rename_i hk
      have hnk : key ∉ (windowsBefore p data service).keys := by
        intro hin
        refine hk (List.mem_filter.mpr ⟨?_, hpre⟩)
        refine (mem_createSequences (effectiveProject p) (noteAll p data.points).changedSequenceIds
          service.sequenceWindows key).mpr (((h3 key).mp hin).imp id ?_)
        rintro ⟨q, hq, rfl⟩
        exact ⟨q.sequenceId, ((noteAll_changed p data.points).2 _).mpr ⟨q, hq, rfl⟩, rfl⟩
      have hnil := contentOf_of_not_mem hnk
      rw [h2] at hnil
      rw [hnil, List.filter_nil]
  · rw [if_neg hpre]
    have hnone : batchAt (effectiveProject p) key data.points = [] := by
      refine List.filter_eq_nil_iff.mpr fun q _ he => hpre ?_
      rw [← of_decide_eq_true he]
      have := hasPrefix_scopedSequenceKey (effectiveProject p) q.sequenceId
      rwa [effectiveProject_idem] at this
    rw [hnone, assignAll_nil]
    split
    · rename_i hk
      exact absurd (List.mem_filter.mp hk).2 hpre
    · rfl

theorem update_valid {p : ProjectId} {data : TimeseriesBatch} {override : Option Int}
    (hacc : Accepted p data override) {service : WindowService}
    (hv : AllValid service.sequenceWindows) :
    AllValid (updateWindowIncremental p data override service).1.sequenceWindows := by
  rw [update_eq hacc]
  exact pruneExpiredPoints_allValid (windowsBefore_spec rfl hv p data).1 _ _

end WindowUpdate
