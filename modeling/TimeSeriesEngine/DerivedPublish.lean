import TimeSeriesEngine.IngestFrame

/-!
# The publication loop of a refresh

Each item of a refresh is published under the publish lock.  `itemWrite` is what
an item does to the windows when it is published, `patches` and `stale` are the
two halves of the test that may drop it:

* `publishTurn_state` — one turn;
* `publishAll_counter` — the loop and the publication counter;
* `publishAll_window` — a loop without stale patches, as a fold of writes;
* `itemWrites_self` — of which only its own reaches a sequence.
-/

namespace DerivedPublish

open TseTypes KeyedTable OrderedSeries HotWindow WindowContent Registry UpdateRange
open DerivedSeries IngestFrame

/-- The generation test of an incremental publication. -/
def stale (update : WindowUpdateResult) (counter : Nat) : Bool :=
  decide (update.updateGeneration ≠ 0 ∧ update.updateGeneration < counter)

/-- An item that reaches the generation test. -/
def patches (item : DerivedRefreshItem) : Bool :=
  !item.skip && item.publish && !item.sequenceId.isEmpty && !item.clearOnly && item.incremental

/-- What the publication of an item writes. -/
def itemWrite (projectId : ProjectId) (item : DerivedRefreshItem) (service : WindowService) :
    WindowService :=
  if item.skip || !item.publish || item.sequenceId.isEmpty then service
  else if item.clearOnly then (replaceDerivedSequence projectId item.sequenceId {} service).1
  else if item.incremental then
    (patchDerivedSequence projectId item.sequenceId item.patchStart item.patchEnd item.points
      service).1
  else (replaceDerivedSequence projectId item.sequenceId item.points service).1

theorem stale_max {update : WindowUpdateResult} {counter : Nat}
    (h : stale update counter = false) :
    stale update (max counter update.updateGeneration) = false := by
  unfold stale at h ⊢
  rw [decide_eq_false_iff_not] at h ⊢
  omega

/-- One turn of the publication loop: a stale patch is dropped, everything else is
    written, and a patch raises the counter. -/
theorem publishTurn_state (p : ProjectId) (update : WindowUpdateResult)
    (item : DerivedRefreshItem) (turn : DerivedState × RefreshTally) :
    (publishTurn p (some update) item turn).1 =
      if patches item && stale update turn.1.lastPublishedGeneration then turn.1
      else
        { window := itemWrite p item turn.1.window
          lastPublishedGeneration :=
            if patches item then max turn.1.lastPublishedGeneration update.updateGeneration
            else turn.1.lastPublishedGeneration } := by
  obtain ⟨state, tally⟩ := turn
  cases hskip : item.skip with
  | true => simp [publishTurn, patches, itemWrite, hskip]
  | false =>
  cases hpub : item.publish with
  | false => simp [publishTurn, patches, itemWrite, hskip, hpub]
  | true =>
  cases hempty : item.sequenceId.isEmpty with
  | true => simp [publishTurn, patches, itemWrite, hskip, hpub, hempty]
  | false =>
  cases hclear : item.clearOnly with
  | true => simp [publishTurn, publishItem, patches, itemWrite, hskip, hpub, hempty, hclear]
  | false =>
  cases hinc : item.incremental with
  | false =>
      simp [publishTurn, publishItem, patches, itemWrite, hskip, hpub, hempty, hclear, hinc]
  | true =>
      by_cases hstale : update.updateGeneration ≠ 0 ∧
          update.updateGeneration < state.lastPublishedGeneration
      · simp [publishTurn, publishItem, patches, stale, hskip, hpub, hempty, hclear, hinc,
          hstale]
      · simp [publishTurn, publishItem, patches, itemWrite, stale, hskip, hpub, hempty, hclear,
          hinc, hstale]

/-- A full refresh writes every item. -/
theorem publishTurn_full (p : ProjectId) (item : DerivedRefreshItem)
    (turn : DerivedState × RefreshTally) :
    (publishTurn p none item turn).1.window = itemWrite p item turn.1.window := by
  obtain ⟨state, tally⟩ := turn
  simp only [publishTurn, publishItem, itemWrite]
  cases hskip : item.skip with
  | true => rfl
  | false =>
  cases hpub : item.publish with
  | false => rfl
  | true =>
  cases hempty : item.sequenceId.isEmpty with
  | true => rfl
  | false =>
  cases hclear : item.clearOnly with
  | true => rfl
  | false =>
  cases hinc : item.incremental with
  | true => rfl
  | false => rfl

/-- What a publication loop does to the counter. -/
theorem publishAll_counter (p : ProjectId) (update : WindowUpdateResult)
    (items : List DerivedRefreshItem) (state : DerivedState) :
    (publishAll p (some update) items state).1.lastPublishedGeneration =
      if items.any patches && !stale update state.lastPublishedGeneration then
        max state.lastPublishedGeneration update.updateGeneration
      else state.lastPublishedGeneration := by
  unfold publishAll
  generalize hturn : ((state, {}) : DerivedState × RefreshTally) = turn
  obtain rfl : state = turn.1 := by rw [← hturn]
  clear hturn
  induction items generalizing turn with
  | nil => rfl
  | cons item items ih =>
      rw [List.foldl_cons, ih, publishTurn_state]
      cases hp : patches item with
      | false => simp [hp]
      | true =>
          cases hs : stale update turn.1.lastPublishedGeneration with
          | true => simp [hp, hs]
          | false => simp [hp, stale_max hs]

/-- A loop in which nothing is stale writes its items in order. -/
theorem publishAll_window (p : ProjectId) {update : Option WindowUpdateResult}
    (items : List DerivedRefreshItem) {state : DerivedState}
    (hfresh : ∀ result, update = some result →
      stale result state.lastPublishedGeneration = false) :
    (publishAll p update items state).1.window =
      items.foldl (fun window item => itemWrite p item window) state.window := by
  unfold publishAll
  generalize hturn : ((state, {}) : DerivedState × RefreshTally) = turn
  obtain rfl : state = turn.1 := by rw [← hturn]
  clear hturn
  induction items generalizing turn with
  | nil => rfl
  | cons item items ih =>
      rw [List.foldl_cons, List.foldl_cons]
      cases update with
      | none =>
          rw [ih _ fun _ h => by cases h]
          congr 1
          exact publishTurn_full p item turn
      | some result =>
          have hs := hfresh result rfl
          have hturn := publishTurn_state p result item turn
          rw [hs, Bool.and_false, if_neg Bool.false_ne_true] at hturn
          rw [ih, hturn]
          intro other heq
          obtain rfl := Option.some.inj heq
          rw [hturn]
          show stale _ (if _ then _ else _) = false
          split
          · exact stale_max hs
          · exact hs

/-! ## Which item a sequence sees -/

/-- An item writes its own sequence. -/
theorem itemWrite_writes (p : ProjectId) (item : DerivedRefreshItem) (service : WindowService) :
    WritesOnly p [item.sequenceId] service (itemWrite p item service) := by
  unfold itemWrite
  split
  · exact WritesOnly.refl _ _ _
  split
  · exact replaceDerived_writes ..
  split
  · exact patchDerived_writes ..
  · exact replaceDerived_writes ..

/-- Some items write their own sequences. -/
theorem itemWrites_writes (p : ProjectId) {ids : List SequenceId}
    {items : List DerivedRefreshItem} (h : ∀ item ∈ items, item.sequenceId ∈ ids)
    (service : WindowService) :
    WritesOnly p ids service
      (items.foldl (fun window item => itemWrite p item window) service) := by
  induction items generalizing service with
  | nil => exact WritesOnly.refl _ _ _
  | cons item items ih =>
      have hone : WritesOnly p ids service (itemWrite p item service) :=
        (itemWrite_writes p item service).mono fun s hs => by
          rw [List.mem_singleton.mp hs]
          exact h item (List.mem_cons_self ..)
      exact hone.trans (ih (fun i hi => h i (List.mem_cons_of_mem _ hi)) _)

/-- **A sequence sees its own item only.** -/
theorem itemWrites_self {p : ProjectId} {items : List DerivedRefreshItem}
    (hnd : (items.map DerivedRefreshItem.sequenceId).Nodup) {item : DerivedRefreshItem}
    (hitem : item ∈ items) {service : WindowService} (hv : AllValid service.sequenceWindows) :
    ∃ middle : WindowService, AllValid middle.sequenceWindows ∧
      middle.watermarks = service.watermarks ∧ middle.windowSizes = service.windowSizes ∧
      (PrunedAt p (scopedSequenceKey p item.sequenceId) service →
        retained p item.sequenceId middle = retained p item.sequenceId service) ∧
      (PrunedAt p (scopedSequenceKey p item.sequenceId) (itemWrite p item middle) →
        retained p item.sequenceId
            (items.foldl (fun window item => itemWrite p item window) service) =
          retained p item.sequenceId (itemWrite p item middle)) := by
  obtain ⟨before, after, rfl⟩ := List.append_of_mem hitem
  rw [List.map_append, List.map_cons, List.nodup_append] at hnd
  obtain ⟨-, hafter, hdisj⟩ := hnd
  have hne : ∀ other, other ∈ before.map DerivedRefreshItem.sequenceId ∨
      other ∈ after.map DerivedRefreshItem.sequenceId →
        scopedSequenceKey p item.sequenceId ≠ scopedSequenceKey p other := by
    intro other hother hkey
    obtain rfl := scopedSequenceKey_inj.mp hkey
    rcases hother with hbefore | hin
    · exact hdisj _ hbefore _ (List.mem_cons_self ..) rfl
    · exact (List.nodup_cons.mp hafter).1 hin
  have hfront := itemWrites_writes p
    (fun i (hi : i ∈ before) => List.mem_map_of_mem (f := DerivedRefreshItem.sequenceId) hi) service
  refine ⟨before.foldl (fun window item => itemWrite p item window) service, hfront.valid hv,
    hfront.watermarks, hfront.windowSizes,
    hfront.kept hv _ (fun s hs => hne s (Or.inl hs)), fun hown => ?_⟩
  rw [List.foldl_append, List.foldl_cons]
  have hback := itemWrites_writes p
    (fun i (hi : i ∈ after) => List.mem_map_of_mem (f := DerivedRefreshItem.sequenceId) hi)
    (itemWrite p item (before.foldl (fun window item => itemWrite p item window) service))
  exact hback.kept ((itemWrite_writes p item _).valid (hfront.valid hv)) _
    (fun s hs => hne s (Or.inr hs)) hown

/-! ## Refreshing -/

/-- Whether a refresh publishes a patch. -/
def takesEffect (capacity : Nat) (registry : RuntimeConfigRegistry) (projectId : ProjectId)
    (update : WindowUpdateResult) (state : DerivedState) : Bool :=
  isSuccessful update.operation.code && !stale update state.lastPublishedGeneration &&
    match computeItems capacity projectId registry (some update) state.window with
    | .ok items => items.any patches
    | .error _ => false

/-- The state a refresh leaves; an exception is thrown before the first publication. -/
def refreshed (capacity : Nat) (registry : RuntimeConfigRegistry) (projectId : ProjectId)
    (update : WindowUpdateResult) (state : DerivedState) : DerivedState :=
  match refreshInternal capacity projectId registry (some update) state with
  | .ok (after, _) => after
  | .error _ => state

/-- The state a full refresh leaves. -/
def fullyRefreshed (capacity : Nat) (registry : RuntimeConfigRegistry) (projectId : ProjectId)
    (state : DerivedState) : DerivedState :=
  match refreshInternal capacity projectId registry none state with
  | .ok (after, _) => after
  | .error _ => state

/-- The items of a refresh whose two queries succeed. -/
theorem computeItems_eq {capacity : Nat} {p : ProjectId} {registry : RuntimeConfigRegistry}
    {update : Option WindowUpdateResult} {service : WindowService}
    {incremental full : Option WindowQueryResult}
    (hincremental : queryFor capacity p
      (sourceUnion ((incrementalConfigs p registry update (allDerivedSeries p registry)).map
        Prod.fst))
      (unionRange ((incrementalConfigs p registry update (allDerivedSeries p registry)).map
        Prod.snd)) service = .ok incremental)
    (hfull : queryFor capacity p
      (sourceUnion (fullConfigs p registry update (allDerivedSeries p registry))) none service =
        .ok full) :
    computeItems capacity p registry update service =
      .ok ((allDerivedSeries p registry).map
        (computeOne p registry update incremental full)) := by
  simp only [computeItems, hincremental, hfull]

theorem fullyRefreshed_of_items {capacity : Nat} {p : ProjectId}
    {registry : RuntimeConfigRegistry} {state : DerivedState} {items : List DerivedRefreshItem}
    (h : computeItems capacity p registry none state.window = .ok items) :
    fullyRefreshed capacity registry p state = (publishAll p none items state).1 := by
  simp only [fullyRefreshed, refreshInternal, h]

/-- A refresh: nothing, or the publication of its items. -/
theorem refreshed_cases (capacity : Nat) (registry : RuntimeConfigRegistry) (p : ProjectId)
    (update : WindowUpdateResult) (state : DerivedState) :
    (isSuccessful update.operation.code = false ∨
        (∃ error, computeItems capacity p registry (some update) state.window = .error error)) ∧
        refreshed capacity registry p update state = state ∨
      isSuccessful update.operation.code = true ∧
        ∃ items, computeItems capacity p registry (some update) state.window = .ok items ∧
          refreshed capacity registry p update state =
            (publishAll p (some update) items state).1 := by
  simp only [refreshed, refreshInternal]
  cases hok : isSuccessful update.operation.code with
  | false => exact Or.inl ⟨Or.inl rfl, rfl⟩
  | true =>
      cases hitems : computeItems capacity p registry (some update) state.window with
      | error error => exact Or.inl ⟨Or.inr ⟨error, rfl⟩, rfl⟩
      | ok items => exact Or.inr ⟨rfl, items, rfl, rfl⟩

/-- The counter after a refresh that takes effect, and after one that does not. -/
theorem refreshed_counter (capacity : Nat) (registry : RuntimeConfigRegistry) (p : ProjectId)
    (update : WindowUpdateResult) (state : DerivedState) :
    (refreshed capacity registry p update state).lastPublishedGeneration =
      if takesEffect capacity registry p update state then
        max state.lastPublishedGeneration update.updateGeneration
      else state.lastPublishedGeneration := by
  rcases refreshed_cases capacity registry p update state with ⟨hno, heq⟩ | ⟨hok, items, hitems, heq⟩
  · have htakes : takesEffect capacity registry p update state = false := by
      rcases hno with hno | ⟨error, hno⟩
      · simp [takesEffect, hno]
      · simp [takesEffect, hno]
    rw [heq, htakes]
    rfl
  · rw [heq, publishAll_counter]
    simp only [takesEffect, hok, hitems, Bool.true_and, Bool.and_comm]

end DerivedPublish
