import Mathlib.Algebra.Order.BigOperators.Group.List
import Mathlib.Data.List.Induction
import TimeSeriesEngine.ExecutorOwnership

/-!
# Merging the storage results of a task

Every cold lane merges its result into the one of the task, in the order in which
the workers get there.  The first result is copied, and from then on the code is
chosen from the aggregate so far, the part and the points counted up to then.

* `mergedStorage_counts` — the counts are sums;
* `mergedStorage_code` — the code after all parts, where every shard that succeeded
  reports a point or none failed;
* `merged_storage_result` — what this says about the order of the parts;
* `reached_storage` — in a run of the executor the result of a task is this fold
  over what its lanes have merged.
-/

namespace StorageMerge

open TseTypes IngestExecutor ExecutorOwnership Transition

/-- The aggregate, and whether it has been initialized, after some more parts. -/
def mergeParts (aggregate : OperationResult × Bool) (parts : List OperationResult) :
    OperationResult × Bool :=
  parts.foldl (fun aggregate part => mergeStorageResult aggregate.1 aggregate.2 part) aggregate

/-- `storage_result` of a task whose shards complete in this order. -/
def mergedStorage (parts : List OperationResult) : OperationResult := (mergeParts ({}, false) parts).1

/-- The points the parts have stored. -/
def successTotal (parts : List OperationResult) : Nat := (parts.map (·.successCount)).sum

/-- The points they have not. -/
def failedTotal (parts : List OperationResult) : Nat := (parts.map (·.failedCount)).sum

/-- Every part reports `ok`. -/
def AllOk (parts : List OperationResult) : Prop := ∀ part ∈ parts, part.code = .ok

/-- Every part is a success, in full or in part. -/
def AllSuccessful (parts : List OperationResult) : Prop :=
  ∀ part ∈ parts, isSuccessful part.code = true

/-- No shard succeeds without a point beside one that fails. -/
def PointsReported (parts : List OperationResult) : Prop :=
  AllSuccessful parts ∨ ∀ part ∈ parts, isSuccessful part.code = true → 0 < part.successCount

/-- All shards report one code. -/
def SameCode (parts : List OperationResult) : Prop :=
  ∀ part ∈ parts, ∀ other ∈ parts, part.code = other.code

instance (parts : List OperationResult) : Decidable (AllOk parts) :=
  inferInstanceAs (Decidable (∀ part ∈ parts, part.code = .ok))

instance (parts : List OperationResult) : Decidable (AllSuccessful parts) :=
  inferInstanceAs (Decidable (∀ part ∈ parts, isSuccessful part.code = true))

/-! ## Part by part -/

theorem isSuccessful_iff {code : OperationCode} :
    isSuccessful code = true ↔ code = .ok ∨ code = .partialSuccess := by
  simp [isSuccessful]

theorem AllOk.successful {parts : List OperationResult} (h : AllOk parts) :
    AllSuccessful parts := fun part hpart => isSuccessful_iff.mpr (Or.inl (h part hpart))

theorem mergeParts_initialized (aggregate : OperationResult) (parts : List OperationResult) :
    (mergeParts (aggregate, true) parts).2 = true := by
  induction parts generalizing aggregate with
  | nil => rfl
  | cons part parts ih => exact ih _

/-- The first part is copied. -/
theorem mergedStorage_cons (first : OperationResult) (rest : List OperationResult) :
    mergedStorage (first :: rest) = (mergeParts (first, true) rest).1 := rfl

/-- The last part is merged into what the others left. -/
theorem mergedStorage_snoc (first : OperationResult) (rest : List OperationResult)
    (part : OperationResult) :
    mergedStorage (first :: (rest ++ [part])) =
      (mergeStorageResult (mergedStorage (first :: rest)) true part).1 := by
  rw [mergedStorage_cons, mergeParts, List.foldl_append]
  show (mergeStorageResult (mergeParts (first, true) rest).1 (mergeParts (first, true) rest).2
    part).1 = _
  rw [mergeParts_initialized]
  rfl

theorem successTotal_snoc (parts : List OperationResult) (part : OperationResult) :
    successTotal (parts ++ [part]) = successTotal parts + part.successCount := by
  rw [successTotal, successTotal, List.map_append, List.sum_append, List.map_singleton,
    List.sum_singleton]

theorem failedTotal_snoc (parts : List OperationResult) (part : OperationResult) :
    failedTotal (parts ++ [part]) = failedTotal parts + part.failedCount := by
  rw [failedTotal, failedTotal, List.map_append, List.sum_append, List.map_singleton,
    List.sum_singleton]

theorem allOk_snoc {parts : List OperationResult} {part : OperationResult} :
    AllOk (parts ++ [part]) ↔ AllOk parts ∧ part.code = .ok := by
  simp only [AllOk, List.mem_append, List.mem_singleton, or_imp, forall_and, forall_eq]

theorem allSuccessful_snoc {parts : List OperationResult} {part : OperationResult} :
    AllSuccessful (parts ++ [part]) ↔ AllSuccessful parts ∧ isSuccessful part.code = true := by
  simp only [AllSuccessful, List.mem_append, List.mem_singleton, or_imp, forall_and, forall_eq]

/-- The counts are sums, whatever the codes. -/
theorem mergedStorage_counts (first : OperationResult) (rest : List OperationResult) :
    (mergedStorage (first :: rest)).successCount = successTotal (first :: rest) ∧
      (mergedStorage (first :: rest)).failedCount = failedTotal (first :: rest) := by
  induction rest using List.reverseRecOn with
  | nil => exact ⟨rfl, rfl⟩
  | append_singleton rest part ih =>
      obtain ⟨hsuccess, hfailed⟩ := ih
      rw [mergedStorage_snoc]
      constructor
      · show (mergedStorage (first :: rest)).successCount + part.successCount = _
        rw [hsuccess, ← List.cons_append, successTotal_snoc]
      · show (mergedStorage (first :: rest)).failedCount + part.failedCount = _
        rw [hfailed, ← List.cons_append, failedTotal_snoc]

/-! ## The code -/

/-- The code of the merged result, read off the parts. -/
def mergedCode (first : OperationResult) (rest : List OperationResult) : OperationCode :=
  if AllSuccessful (first :: rest) then
    if AllOk (first :: rest) then .ok else .partialSuccess
  else if rest ≠ [] ∧ 0 < successTotal (first :: rest) then .partialSuccess
  else first.code

theorem successTotal_pos {parts : List OperationResult} {part : OperationResult}
    (hpart : part ∈ parts) (hpos : 0 < part.successCount) : 0 < successTotal parts :=
  lt_of_lt_of_le hpos (List.single_le_sum (fun _ _ => Nat.zero_le _) _ (List.mem_map_of_mem hpart))

theorem PointsReported.init {parts more : List OperationResult}
    (h : PointsReported (parts ++ more)) : PointsReported parts :=
  h.imp (fun hall part hpart => hall part (List.mem_append_left _ hpart))
    fun hpos part hpart => hpos part (List.mem_append_left _ hpart)

/-- A part that fails beside one that succeeds comes with points of that one. -/
theorem PointsReported.pos {parts : List OperationResult} (h : PointsReported parts)
    {good bad : OperationResult} (hgood : good ∈ parts) (hbad : bad ∈ parts)
    (hsuccess : isSuccessful good.code = true) (hfail : ¬ isSuccessful bad.code = true) :
    0 < good.successCount := by
  rcases h with hall | hpos
  · exact absurd (hall bad hbad) hfail
  · exact hpos good hgood hsuccess

/-- Two successful results merge into a successful one. -/
theorem merge_successful {aggregate part : OperationResult}
    (haggregate : isSuccessful aggregate.code = true) (hpart : isSuccessful part.code = true) :
    (mergeStorageResult aggregate true part).1.code =
      if aggregate.code = .partialSuccess ∨ part.code = .partialSuccess then .partialSuccess
      else aggregate.code := by
  simp [mergeStorageResult, haggregate, hpart]

/-- A failure on either side: the points decide. -/
theorem merge_failed {aggregate part : OperationResult}
    (h : ¬ isSuccessful aggregate.code = true ∨ ¬ isSuccessful part.code = true) :
    (mergeStorageResult aggregate true part).1.code =
      if aggregate.successCount + part.successCount = 0 then aggregate.code
      else .partialSuccess := by
  rcases h with h | h <;> simp [mergeStorageResult, h]

/-- Where the first code is kept although a shard failed, it is a failure. -/
theorem PointsReported.first_failed {first : OperationResult} {rest : List OperationResult}
    (h : PointsReported (first :: rest)) (hall : ¬ AllSuccessful (first :: rest))
    (hkept : ¬ (rest ≠ [] ∧ 0 < successTotal (first :: rest))) :
    ¬ isSuccessful first.code = true := by
  intro hgood
  obtain ⟨bad, hbad, hfail⟩ : ∃ bad ∈ first :: rest, ¬ isSuccessful bad.code = true := by
    by_contra hnone
    exact hall fun p hp => by_contra fun hfail => hnone ⟨p, hp, hfail⟩
  have hpos := h.pos List.mem_cons_self hbad hgood hfail
  refine hkept ⟨fun hnil => ?_, successTotal_pos List.mem_cons_self hpos⟩
  rw [hnil, List.mem_singleton] at hbad
  exact hfail (hbad ▸ hgood)

/-- One more part where no shard has failed so far. -/
theorem mergedCode_snoc_successful {first : OperationResult} {rest : List OperationResult}
    {part : OperationResult} (h : PointsReported (first :: rest ++ [part]))
    {aggregate : OperationResult} (hcode : aggregate.code = mergedCode first rest)
    (hcount : aggregate.successCount = successTotal (first :: rest))
    (hall : AllSuccessful (first :: rest)) :
    (mergeStorageResult aggregate true part).1.code = mergedCode first (rest ++ [part]) := by
  rw [mergedCode, if_pos hall] at hcode
  rw [mergedCode, ← List.cons_append]
  by_cases hpart : isSuccessful part.code = true
  · -- nothing has failed: `Ok` as long as every part is
    have haggregate : isSuccessful aggregate.code = true := by
      rw [hcode]
      split <;> rfl
    rw [merge_successful haggregate hpart, if_pos (allSuccessful_snoc.mpr ⟨hall, hpart⟩), hcode]
    by_cases holdOk : AllOk (first :: rest)
    · rw [if_pos holdOk]
      rcases isSuccessful_iff.mp hpart with hpartOk | hpartly
      · rw [if_pos (allOk_snoc.mpr ⟨holdOk, hpartOk⟩), hpartOk]
        rfl
      · have hnew : ¬ AllOk (first :: rest ++ [part]) := fun hnew =>
          absurd ((allOk_snoc.mp hnew).2.symm.trans hpartly) (by decide)
        rw [if_pos (Or.inr hpartly), if_neg hnew]
    · rw [if_neg holdOk, if_neg fun hnew => holdOk (allOk_snoc.mp hnew).1, if_pos (Or.inl rfl)]
  · -- the first failure: the shards so far report their points
    have hpos : 0 < first.successCount := h.pos (List.mem_append_left _ List.mem_cons_self)
      (List.mem_append_right _ List.mem_cons_self) (hall first List.mem_cons_self) hpart
    have hsum := successTotal_pos (List.mem_cons_self (l := rest)) hpos
    have hnonzero : ¬ aggregate.successCount + part.successCount = 0 := by omega
    rw [merge_failed (Or.inr hpart), if_neg hnonzero,
      if_neg fun hnew => hpart (allSuccessful_snoc.mp hnew).2,
      if_pos ⟨by simp, by rw [successTotal_snoc]; omega⟩]

/-- One more part where a shard has failed before. -/
theorem mergedCode_snoc_failed {first : OperationResult} {rest : List OperationResult}
    {part : OperationResult} (h : PointsReported (first :: rest))
    {aggregate : OperationResult} (hcode : aggregate.code = mergedCode first rest)
    (hcount : aggregate.successCount = successTotal (first :: rest))
    (hall : ¬ AllSuccessful (first :: rest)) :
    (mergeStorageResult aggregate true part).1.code = mergedCode first (rest ++ [part]) := by
  have htotal := successTotal_snoc (first :: rest) part
  rw [← hcount] at htotal
  have hne : rest ++ [part] ≠ [] := by simp
  rw [mergedCode, if_neg hall] at hcode
  rw [mergedCode, ← List.cons_append, if_neg fun hnew => hall (allSuccessful_snoc.mp hnew).1]
  by_cases hpartly : rest ≠ [] ∧ 0 < successTotal (first :: rest)
  · -- points have been counted on both sides of a failure before
    rw [if_pos hpartly] at hcode
    rw [if_pos ⟨hne, by omega⟩]
    by_cases hpart : isSuccessful part.code = true
    · rw [merge_successful (by rw [hcode]; rfl) hpart, if_pos (Or.inl hcode)]
    · rw [merge_failed (Or.inr hpart), if_neg (by omega)]
  · -- so far the first code has been kept, and it is a failure
    rw [if_neg hpartly] at hcode
    have hfirst := h.first_failed hall hpartly
    rw [merge_failed (Or.inl (by rw [hcode]; exact hfirst)), hcode]
    by_cases hzero : aggregate.successCount + part.successCount = 0
    · rw [if_pos hzero, if_neg fun hnew => by omega]
    · rw [if_neg hzero, if_pos ⟨hne, by omega⟩]

/-- The code after all parts. -/
theorem mergedStorage_code {first : OperationResult} {rest : List OperationResult}
    (h : PointsReported (first :: rest)) :
    (mergedStorage (first :: rest)).code = mergedCode first rest := by
  induction rest using List.reverseRecOn with
  | nil =>
      rw [mergedStorage_cons, mergedCode]
      show first.code = _
      by_cases hgood : isSuccessful first.code = true
      · have hall : AllSuccessful [first] := by simpa [AllSuccessful] using hgood
        rw [if_pos hall]
        rcases isSuccessful_iff.mp hgood with hok | hpartly
        · rw [if_pos (by simpa [AllOk] using hok), hok]
        · rw [if_neg (by simp [AllOk, hpartly]), hpartly]
      · rw [if_neg (by simpa [AllSuccessful] using hgood), if_neg fun h => h.1 rfl]
  | append_singleton rest part ih =>
      rw [← List.cons_append] at h
      have hcount := (mergedStorage_counts first rest).1
      rw [mergedStorage_snoc]
      by_cases hall : AllSuccessful (first :: rest)
      · exact mergedCode_snoc_successful h (ih h.init) hcount hall
      · exact mergedCode_snoc_failed h.init (ih h.init) hcount hall

/-! ## What it says about the order -/

theorem Perm.allOk {parts order : List OperationResult} (h : order.Perm parts) :
    AllOk order ↔ AllOk parts :=
  forall_congr' fun _ => imp_congr_left h.mem_iff

theorem Perm.allSuccessful {parts order : List OperationResult} (h : order.Perm parts) :
    AllSuccessful order ↔ AllSuccessful parts :=
  forall_congr' fun _ => imp_congr_left h.mem_iff

theorem Perm.pointsReported {parts order : List OperationResult} (h : order.Perm parts) :
    PointsReported order ↔ PointsReported parts :=
  or_congr (Perm.allSuccessful h) (forall_congr' fun _ => imp_congr_left h.mem_iff)

theorem Perm.successTotal {parts order : List OperationResult} (h : order.Perm parts) :
    successTotal order = successTotal parts :=
  (h.map _).sum_eq

/-- The result is ok when all parts are. -/
theorem mergedStorage_ok_iff {parts : List OperationResult} (hne : parts ≠ [])
    (h : PointsReported parts) : (mergedStorage parts).code = .ok ↔ AllOk parts := by
  obtain ⟨first, rest, rfl⟩ := List.exists_cons_of_ne_nil hne
  rw [mergedStorage_code h, mergedCode]
  by_cases hall : AllSuccessful (first :: rest)
  · rw [if_pos hall]
    split
    · exact iff_of_true rfl ‹_›
    · exact iff_of_false (by decide) ‹_›
  · have hnot : ¬ AllOk (first :: rest) := fun hok => hall hok.successful
    rw [if_neg hall]
    split
    · exact iff_of_false (by decide) hnot
    · rename_i hkept
      have hfirst := h.first_failed hall hkept
      exact iff_of_false (fun hok => hfirst (isSuccessful_iff.mpr (Or.inl hok))) hnot

theorem two_le_length_iff {first : OperationResult} {rest : List OperationResult} :
    2 ≤ (first :: rest).length ↔ rest ≠ [] := by
  cases rest <;> simp

/-- With points stored and some part not ok, the result is a partial success. -/
theorem mergedStorage_partialSuccess {parts : List OperationResult} (h : PointsReported parts)
    (hpos : 0 < successTotal parts) (hnot : ¬ AllOk parts)
    (hmixed : 2 ≤ parts.length ∨ AllSuccessful parts) :
    (mergedStorage parts).code = .partialSuccess := by
  cases parts with
  | nil => exact absurd hpos (by decide)
  | cons first rest =>
      rw [mergedStorage_code h, mergedCode]
      by_cases hall : AllSuccessful (first :: rest)
      · rw [if_pos hall, if_neg hnot]
      · rw [if_neg hall, if_pos ⟨two_le_length_iff.mp (hmixed.resolve_right hall), hpos⟩]

/-- Without a point stored, a failure keeps the code of the shard that was first. -/
theorem mergedStorage_first {first : OperationResult} {rest : List OperationResult}
    (h : PointsReported (first :: rest)) (hzero : successTotal (first :: rest) = 0)
    (hfail : ¬ AllSuccessful (first :: rest)) :
    (mergedStorage (first :: rest)).code = first.code := by
  rw [mergedStorage_code h, mergedCode, if_neg hfail, if_neg fun hpartly => by omega]

/-- The parts decide the code up to the one that was first. -/
theorem mergedStorage_perm {parts order : List OperationResult} (h : PointsReported parts)
    (hperm : order.Perm parts)
    (hsame : 0 < successTotal parts ∨ AllSuccessful parts ∨ SameCode parts) :
    (mergedStorage order).code = (mergedStorage parts).code := by
  cases parts with
  | nil => rw [hperm.eq_nil]
  | cons first rest =>
      cases order with
      | nil => exact absurd hperm.symm.eq_nil (by simp)
      | cons first' rest' =>
          have horder := (Perm.pointsReported hperm).mpr h
          have hlength : rest' ≠ [] ↔ rest ≠ [] := by
            rw [← two_le_length_iff, ← two_le_length_iff, hperm.length_eq]
          rw [mergedStorage_code horder, mergedStorage_code h, mergedCode, mergedCode,
            if_congr (Perm.allSuccessful hperm) (if_congr (Perm.allOk hperm) rfl rfl) rfl]
          by_cases hall : AllSuccessful (first :: rest)
          · rw [if_pos hall, if_pos hall]
          · rw [if_neg hall, if_neg hall,
              if_congr (and_congr hlength (by rw [Perm.successTotal hperm])) rfl rfl]
            split
            · rfl
            · rename_i hkept
              have hfirst : first' ∈ first :: rest := hperm.subset List.mem_cons_self
              rcases hsame with hpos | hsuccessful | hcodes
              · have hnil : rest = [] := by_contra fun hne => hkept ⟨hne, hpos⟩
                rw [hnil, List.mem_singleton] at hfirst
                rw [hfirst]
              · exact absurd hsuccessful hall
              · exact hcodes _ hfirst _ List.mem_cons_self

/-- When nothing was stored and shards failed differently, the order shows. -/
theorem exists_order {parts : List OperationResult} (h : PointsReported parts)
    (hzero : successTotal parts = 0) (hfail : ¬ AllSuccessful parts) (hcodes : ¬ SameCode parts) :
    ∃ order, order.Perm parts ∧ (mergedStorage order).code ≠ (mergedStorage parts).code := by
  obtain ⟨part, hpart, hdiffers⟩ : ∃ part ∈ parts, part.code ≠ (mergedStorage parts).code := by
    by_contra hnone
    have hall : ∀ part ∈ parts, part.code = (mergedStorage parts).code := fun part hpart =>
      by_contra fun hne => hnone ⟨part, hpart, hne⟩
    exact hcodes fun part hpart other hother => (hall part hpart).trans (hall other hother).symm
  have hperm : (part :: parts.erase part).Perm parts := (List.perm_cons_erase hpart).symm
  refine ⟨part :: parts.erase part, hperm, ?_⟩
  rw [mergedStorage_first ((Perm.pointsReported hperm).mpr h)
    ((Perm.successTotal hperm).trans hzero) fun hall => hfail ((Perm.allSuccessful hperm).mp hall)]
  exact hdiffers

/-- **Merging storage results.**  The counts are sums.  Unless a shard reports success
    without a point beside a failed one, the code is `Ok` when every shard's is and
    `PartialSuccess` when points were stored and a shard was not `Ok`; a lone result is
    copied.  The order of completion shows only where nothing was stored and the shards
    failed differently: then the first one gives the code. -/
theorem merged_storage_result {parts : List OperationResult} (hne : parts ≠ []) :
    (mergedStorage parts).successCount = successTotal parts ∧
      (mergedStorage parts).failedCount = failedTotal parts ∧
      (PointsReported parts →
        ((mergedStorage parts).code = .ok ↔ AllOk parts) ∧
        (0 < successTotal parts → ¬ AllOk parts → 2 ≤ parts.length ∨ AllSuccessful parts →
          (mergedStorage parts).code = .partialSuccess) ∧
        ((∀ order, order.Perm parts →
            (mergedStorage order).code = (mergedStorage parts).code) ↔
          0 < successTotal parts ∨ AllSuccessful parts ∨ SameCode parts) ∧
        (successTotal parts = 0 → ¬ AllSuccessful parts →
          ∀ first ∈ parts.head?, (mergedStorage parts).code = first.code)) := by
  obtain ⟨first, rest, rfl⟩ := List.exists_cons_of_ne_nil hne
  obtain ⟨hsuccess, hfailed⟩ := mergedStorage_counts first rest
  refine ⟨hsuccess, hfailed, fun h => ⟨mergedStorage_ok_iff hne h,
    fun hpos hnot hmixed => mergedStorage_partialSuccess h hpos hnot hmixed, ⟨fun horder => ?_,
      fun hsame order hperm => mergedStorage_perm h hperm hsame⟩, fun hzero hfail f hf => ?_⟩⟩
  · by_contra hnone
    obtain ⟨hpos, hrest⟩ := not_or.mp hnone
    obtain ⟨hfail, hcodes⟩ := not_or.mp hrest
    obtain ⟨order, hperm, hdiffers⟩ := exists_order h (by omega) hfail hcodes
    exact hdiffers (horder order hperm)
  · rw [List.head?_cons, Option.mem_some_iff] at hf
    rw [← hf]
    exact mergedStorage_first h hzero hfail

/-- A shard that failed first does not hide the points of another one. -/
theorem merged_storage_result_mixed :
    (mergedStorage [unavailable 1 "connection", okResult 2 "raw batch inserted"]).code =
        .partialSuccess ∧
      (mergedStorage [unavailable 1 "connection", okResult 2 "raw batch inserted"]).successCount =
        2 := by
  obtain ⟨hsuccess, -, hcode⟩ := merged_storage_result
    (show [unavailable 1 "connection", okResult 2 "raw batch inserted"] ≠ [] by decide)
  obtain ⟨-, hpartly, -⟩ := hcode (Or.inr (by decide))
  exact ⟨hpartly (by decide) (by decide) (Or.inl (by decide)), hsuccess⟩

/-- Two shards that fail differently, in both orders. -/
theorem completion_order_shows :
    [unavailable 1 "connection", workerFailure 1 "worker"].Perm
        [workerFailure 1 "worker", unavailable 1 "connection"] ∧
      (mergedStorage [unavailable 1 "connection", workerFailure 1 "worker"]).code =
        .unavailable ∧
      (mergedStorage [workerFailure 1 "worker", unavailable 1 "connection"]).code =
        .internalError := by
  exact ⟨List.Perm.swap _ _ _, by decide, by decide⟩

/-! ## In a run of the executor -/

variable {config : Config} {s : Executor}

/-- What the state of a task says about its storage result. -/
def storageOf (state : TaskState) : OperationResult × Bool :=
  (state.result.storageResult, state.storageInitialized)

/-- The result a lane is about to merge. -/
def mergingResult : Stage → List OperationResult
  | .merging result => [result]
  | _ => []

/-- What one step merges into the result of a task. -/
def mergedNow (s : Executor) (t : Nat) : Action → List OperationResult
  | .work w _ => if s.holding w = some t then mergingResult (s.stage t w.lane) else []
  | _ => []

/-- What a run merges into the result of a task, in order. -/
def mergedIn (config : Config) (t : Nat) : Executor → List Action → List OperationResult
  | _, [] => []
  | s, action :: actions =>
      mergedNow s t action ++ mergedIn config t (perform config s action) actions

theorem mergeParts_append (aggregate : OperationResult × Bool) (parts more : List OperationResult) :
    mergeParts aggregate (parts ++ more) = mergeParts (mergeParts aggregate parts) more :=
  List.foldl_append

/-- Only a merge changes the storage result. -/
theorem laneEffect_storage {t : Nat} {lane : Lane} {callback : Callback} {effect : Effect}
    (h : laneEffect s t lane callback = some effect) :
    storageOf effect.state =
      mergeParts (storageOf (s.states t)) (mergingResult (s.stage t lane)) := by
  simp only [laneEffect] at h
  cases hstage : s.stage t lane with
  | queued => simp [hstage] at h
  | waiting predecessors =>
      cases predecessors with
      | nil =>
          simp only [hstage, Option.some.injEq] at h
          exact h ▸ rfl
      | cons predecessor rest =>
          simp only [hstage, Option.ite_none_right_eq_some, Option.some.injEq] at h
          exact h.2 ▸ rfl
  | calling =>
      simp only [hstage] at h
      cases lane with
      | hot =>
          obtain ⟨result, -, rfl⟩ := Option.map_eq_some_iff.mp h
          rfl
      | cold index =>
          obtain ⟨result, -, rfl⟩ := Option.map_eq_some_iff.mp h
          rfl
  | returned result =>
      simp only [hstage, Option.some.injEq] at h
      exact h ▸ rfl
  | ordered result =>
      simp only [hstage, Option.some.injEq] at h
      exact h ▸ rfl
  | announcing result =>
      simp only [hstage, Option.some.injEq] at h
      exact h ▸ rfl
  | merging result =>
      simp only [hstage, Option.some.injEq] at h
      exact h ▸ rfl
  | counting =>
      simp only [hstage, Option.some.injEq] at h
      exact h ▸ rfl
  | finishing result =>
      simp only [hstage, Option.some.injEq] at h
      exact h ▸ rfl
  | releasing =>
      simp only [hstage, Option.some.injEq] at h
      exact h ▸ rfl
  | done => simp [hstage] at h

/-- Nothing has been merged for a task that is still to come. -/
def Fresh (s : Executor) : Prop := ∀ t, s.tasks.length ≤ t → storageOf (s.states t) = ({}, false)

/-- A new task starts without a storage result. -/
theorem admitTask_storage (hfresh : Fresh s) (submission : Submission) (t : Nat) :
    storageOf ((admitTask config submission s).states t) = storageOf (s.states t) := by
  show storageOf (Function.update s.states s.tasks.length _ t) = _
  by_cases ht : t = s.tasks.length
  · rw [ht, Function.update_self, hfresh _ (le_refl _)]
    rfl
  · rw [Function.update_of_ne ht]

/-- What a step of a worker merges. -/
theorem perform_work {w : Worker} {callback : Callback} (t : Nat) :
    storageOf ((perform config s (.work w callback)).states t) =
      mergeParts (storageOf (s.states t)) (mergedNow s t (.work w callback)) := by
  rw [perform, mergedNow]
  by_cases hholding : s.holding w = some t
  · rw [if_pos hholding]
    simp only [step, hholding]
    cases heffect : laneEffect s t w.lane callback with
    | none =>
        -- a lane in front of a merge is never blocked
        have hstage : mergingResult (s.stage t w.lane) = [] := by
          cases hstage : s.stage t w.lane with
          | merging result => simp [laneEffect, hstage] at heffect
          | _ => rfl
        rw [hstage]
        rfl
    | some effect =>
        rw [← laneEffect_storage heffect]
        show storageOf (Function.update s.states t effect.state t) = _
        rw [Function.update_self]
  · rw [if_neg hholding]
    cases hother : s.holding w with
    | none =>
        simp only [step, hother]
        rfl
    | some t' =>
        have hne : t ≠ t' := fun h => hholding (h ▸ hother)
        simp only [step, hother]
        cases heffect : laneEffect s t' w.lane callback with
        | none => rfl
        | some effect =>
            show storageOf (Function.update s.states t' effect.state t) = _
            rw [Function.update_of_ne hne]
            rfl

/-- **Step.**  What a step does to the storage result of a task. -/
theorem perform_storage (howned : Owned config s) (hfresh : Fresh s) (action : Action) (t : Nat) :
    storageOf ((perform config s action).states t) =
      mergeParts (storageOf (s.states t)) (mergedNow s t action) := by
  by_cases hwork : ∀ w callback, action ≠ .work w callback
  · have hnothing : mergedNow s t action = [] := by
      cases action with
      | work w callback => exact absurd rfl (hwork w callback)
      | _ => rfl
    rw [hnothing, perform]
    cases h : step config s action with
    | none => rfl
    | some s' =>
        rw [Option.getD_some]
        rcases (step_outcome howned.fits h).2 hwork with hsame | ⟨submission, hstates⟩
        · rw [hsame]
          rfl
        · rw [hstates]
          exact admitTask_storage hfresh submission t
  · obtain ⟨w, hw⟩ := not_forall.mp hwork
    obtain ⟨callback, heq⟩ := not_forall.mp hw
    rw [not_not.mp heq]
    exact perform_work t

/-- No step removes a task. -/
theorem perform_tasks_le (howned : Owned config s) (action : Action) :
    s.tasks.length ≤ (perform config s action).tasks.length := by
  rw [perform]
  cases h : step config s action with
  | none => exact le_refl _
  | some s' =>
      rcases (step_cases howned.fits h).shape with hquiet | ⟨call, submission, -, -, -, -, rfl⟩ |
        ⟨w, t, rest, -, rfl⟩ | ⟨w, t, effect, -, -, rfl⟩
      · exact le_of_eq (congrArg List.length hquiet.tasks.symm)
      · rw [Option.getD_some, admit_length]
        exact Nat.le_succ _
      · rw [Option.getD_some, afterPop]
        exact le_of_eq (congrArg List.length (popQueue_frame s w.lane).1.symm)
      · exact le_refl _

/-- Nothing is merged into a task to come. -/
theorem mergedNow_unadmitted (howned : Owned config s) (action : Action) {t : Nat}
    (ht : s.tasks.length ≤ t) : mergedNow s t action = [] := by
  cases action with
  | work w callback =>
      refine if_neg fun hholding => ?_
      exact absurd (howned.holds w t hholding).2.1.1 (not_lt.mpr ht)
  | _ => rfl

theorem Fresh.perform (h : Fresh s) (howned : Owned config s) (action : Action) :
    Fresh (perform config s action) := by
  intro t ht
  have hold : s.tasks.length ≤ t := le_trans (perform_tasks_le howned action) ht
  rw [perform_storage howned h, mergedNow_unadmitted howned action hold, h t hold]
  rfl

theorem perform_owned (howned : Owned config s) (action : Action) :
    Owned config (perform config s action) := by
  rw [perform]
  cases h : step config s action with
  | none => exact howned
  | some s' => exact howned.step (step_cases howned.fits h)

/-- What a run merges into a task. -/
theorem run_storage (howned : Owned config s) (hfresh : Fresh s) (actions : List Action) (t : Nat) :
    storageOf ((run (perform config) s actions).states t) =
      mergeParts (storageOf (s.states t)) (mergedIn config t s actions) := by
  induction actions generalizing s with
  | nil => rfl
  | cons action actions ih =>
      rw [mergedIn, mergeParts_append, ← perform_storage howned hfresh]
      exact ih (perform_owned howned action) (hfresh.perform howned action)

/-- **Run.**  Whatever the interleaving, the storage result of a task is the fold over
    what its lanes have merged, in the order in which they did. -/
theorem reached_storage (config : Config) (actions : List Action) (t : Nat) :
    ((reached config actions).states t).result.storageResult =
      mergedStorage (mergedIn config t {} actions) := by
  have hrun := run_storage (owned_init config) (fun _ _ => rfl) actions t
  exact congrArg Prod.fst hrun

end StorageMerge
