import Mathlib.Data.List.Induction
import TimeSeriesEngine.Library.Transition
import TimeSeriesEngine.DerivedPublish
import TimeSeriesEngine.ProjectView

/-!
# Projects sharing one derived service

`DerivedSeriesService` keeps one publication counter for all projects, while
each project counts its own updates.  A refresh is published as long as no
publication with a higher generation came first, whoever published it.

* `SharedDerived` — the windows, the counter, and the reports the updates
  returned; a refresh names the report it is called with by its place;
* `published` — the publications that took effect, kept beside the state
  (`counter_newest`: the counter is the newest of them);
* `derived_isolated` — if no refresh of `P` is overtaken by the other project,
  the run leaves `P` what the run of `P`'s calls alone leaves it.
-/

namespace DerivedIsolation

open TseTypes KeyedTable HotWindow Registry UpdateRange DerivedSeries DerivedPublish
open ProjectView Transition

/-! ## The shared service -/

/-- The derived state, and the reports that refreshes are made with. -/
structure SharedDerived where
  derived : DerivedState := {}
  /-- What the updates of each project returned, in order. -/
  reports : Table ProjectId (List WindowUpdateResult) := KeyedTable.empty
  /-- The incremental publications that took effect, with their generations. -/
  published : List (ProjectId × Nat) := []

/-- A window update of a project, or a refresh with one of its reports. -/
inductive SharedCall where
  | update (projectId : ProjectId) (data : TimeseriesBatch) (windowSize : Option Int)
  | refresh (projectId : ProjectId) (report : Nat)

/-- Whose call it is. -/
def SharedCall.projectId : SharedCall → ProjectId
  | .update projectId _ _ => projectId
  | .refresh projectId _ => projectId

/-- A report of a project, by its number. -/
def reportAt (projectId : ProjectId) (report : Nat) (shared : SharedDerived) :
    Option WindowUpdateResult :=
  ((shared.reports.find projectId).getD [])[report]?

/-- The state behind a call. -/
def sharedStep (capacity : Nat) (registry : RuntimeConfigRegistry) (shared : SharedDerived) :
    SharedCall → SharedDerived
  | .update projectId data windowSize =>
      let (window, result) :=
        updateWindowIncremental projectId data windowSize shared.derived.window
      { shared with
        derived := { shared.derived with window := window }
        reports :=
          put projectId ((shared.reports.find projectId).getD [] ++ [result]) shared.reports }
  | .refresh projectId report =>
      match reportAt projectId report shared with
      | none => shared
      | some update =>
          { shared with
            derived := refreshed capacity registry projectId update shared.derived
            published :=
              if takesEffect capacity registry projectId update shared.derived then
                shared.published ++ [(projectId, update.updateGeneration)]
              else shared.published }

/-! ## Publishing -/

theorem computeItems_view (capacity : Nat) (p : ProjectId) (registry : RuntimeConfigRegistry)
    (update : Option WindowUpdateResult) (service : WindowService) :
    computeItems capacity p registry update (projectView p service) =
      computeItems capacity p registry update service := by
  simp only [computeItems, queryFor, query_view]

theorem computeItems_congr (capacity : Nat) {p : ProjectId} (registry : RuntimeConfigRegistry)
    (update : Option WindowUpdateResult) {a b : WindowService}
    (h : projectView p a = projectView p b) :
    computeItems capacity p registry update a = computeItems capacity p registry update b := by
  rw [← computeItems_view, h, computeItems_view]

theorem update_congr {p : ProjectId} (data : TimeseriesBatch) (override : Option Int)
    {a b : WindowService} (h : projectView p a = projectView p b) :
    projectView p (updateWindowIncremental p data override a).1 =
        projectView p (updateWindowIncremental p data override b).1 ∧
      (updateWindowIncremental p data override a).2 =
        (updateWindowIncremental p data override b).2 := by
  have ha := update_view p data override a
  have hb := update_view p data override b
  rw [h] at ha
  exact Prod.mk.inj (ha.symm.trans hb)

/-- An item is written into the windows of its project. -/
theorem itemWrite_view (p : ProjectId) (item : DerivedRefreshItem) (service : WindowService) :
    itemWrite p item (projectView p service) = projectView p (itemWrite p item service) := by
  simp only [itemWrite]
  split
  · rfl
  split
  · rw [replace_view]
  split
  · rw [patch_view]
  · rw [replace_view]

theorem itemWrite_congr {p : ProjectId} (item : DerivedRefreshItem) {a b : WindowService}
    (h : projectView p a = projectView p b) :
    projectView p (itemWrite p item a) = projectView p (itemWrite p item b) := by
  rw [← itemWrite_view, ← itemWrite_view, h]

/-- Writing an item does not touch another project. -/
theorem itemWrite_view_other {p q : ProjectId} (h : Separate p q) (item : DerivedRefreshItem)
    (service : WindowService) :
    projectView p (itemWrite q item service) = projectView p service := by
  simp only [itemWrite]
  split
  · rfl
  split
  · exact replace_view_other h _ _ _
  split
  · exact patch_view_other h _ _ _ _ _
  · exact replace_view_other h _ _ _

/-- The windows of one project after the publication of the same items: equal if
    the generation test has the same outcome wherever it is made. -/
theorem publishAll_agree {p : ProjectId} {update : WindowUpdateResult}
    {items : List DerivedRefreshItem} {a b : DerivedState}
    (hview : projectView p a.window = projectView p b.window)
    (hstale : items.any patches = true →
      stale update a.lastPublishedGeneration = stale update b.lastPublishedGeneration) :
    projectView p (publishAll p (some update) items a).1.window =
      projectView p (publishAll p (some update) items b).1.window := by
  unfold publishAll
  generalize ha : ((a, {}) : DerivedState × RefreshTally) = turnA
  generalize hb : ((b, {}) : DerivedState × RefreshTally) = turnB
  replace hview : projectView p turnA.1.window = projectView p turnB.1.window := by
    rw [← ha, ← hb]
    exact hview
  replace hstale : items.any patches = true →
      stale update turnA.1.lastPublishedGeneration =
        stale update turnB.1.lastPublishedGeneration := by
    rw [← ha, ← hb]
    exact hstale
  clear ha hb
  induction items generalizing turnA turnB with
  | nil => exact hview
  | cons item items ih =>
      rw [List.foldl_cons, List.foldl_cons]
      have hwrite := itemWrite_congr item hview
      cases hp : patches item with
      | false =>
          have hrest : items.any patches = true →
              stale update turnA.1.lastPublishedGeneration =
                stale update turnB.1.lastPublishedGeneration := fun h =>
            hstale (by rw [List.any_cons, h, Bool.or_true])
          refine ih _ _ ?_ ?_
          · simpa [publishTurn_state, hp] using hwrite
          · simpa [publishTurn_state, hp] using hrest
      | true =>
          have heq := hstale (by rw [List.any_cons, hp, Bool.true_or])
          cases hs : stale update turnA.1.lastPublishedGeneration with
          | true =>
              rw [hs] at heq
              refine ih _ _ ?_ fun _ => ?_
              · simpa [publishTurn_state, hp, hs, ← heq] using hview
              · simp [publishTurn_state, hp, hs, ← heq]
          | false =>
              rw [hs] at heq
              refine ih _ _ ?_ fun _ => ?_
              · simpa [publishTurn_state, hp, hs, ← heq] using hwrite
              · simp [publishTurn_state, hp, hs, ← heq, stale_max hs, stale_max heq.symm]

/-- Publishing does not touch another project. -/
theorem publishAll_view_other {p q : ProjectId} (h : Separate p q) (update : WindowUpdateResult)
    (items : List DerivedRefreshItem) (state : DerivedState) :
    projectView p (publishAll q (some update) items state).1.window =
      projectView p state.window := by
  unfold publishAll
  generalize hturn : ((state, {}) : DerivedState × RefreshTally) = turn
  obtain rfl : state = turn.1 := by rw [← hturn]
  clear hturn
  induction items generalizing turn with
  | nil => rfl
  | cons item items ih =>
      rw [List.foldl_cons, ih, publishTurn_state]
      split
      · rfl
      · exact itemWrite_view_other h item turn.1.window

/-! ## Refreshing -/

theorem refreshed_view_other {p q : ProjectId} (h : Separate p q) (capacity : Nat)
    (registry : RuntimeConfigRegistry) (update : WindowUpdateResult) (state : DerivedState) :
    projectView p (refreshed capacity registry q update state).window =
      projectView p state.window := by
  rcases refreshed_cases capacity registry q update state with ⟨-, heq⟩ | ⟨-, items, -, heq⟩
  · rw [heq]
  · rw [heq, publishAll_view_other h]

/-- Two refreshes of a project that sees the same and passes the same tests. -/
theorem refreshed_agree {p : ProjectId} {capacity : Nat} {registry : RuntimeConfigRegistry}
    {update : WindowUpdateResult} {a b : DerivedState}
    (hview : projectView p a.window = projectView p b.window)
    (hstale : (∀ items, computeItems capacity p registry (some update) a.window = .ok items →
        items.any patches = false) ∨
      stale update a.lastPublishedGeneration = stale update b.lastPublishedGeneration) :
    projectView p (refreshed capacity registry p update a).window =
        projectView p (refreshed capacity registry p update b).window ∧
      takesEffect capacity registry p update a = takesEffect capacity registry p update b := by
  have hcompute := computeItems_congr capacity registry (some update) hview
  constructor
  · rcases refreshed_cases capacity registry p update a with ⟨hno, ha⟩ | ⟨hok, items, hitems, ha⟩
    · rcases refreshed_cases capacity registry p update b with ⟨-, hb⟩ | ⟨hok, items, hitems, -⟩
      · rw [ha, hb, hview]
      · rcases hno with hno | ⟨error, hno⟩
        · exact absurd (hno.symm.trans hok) Bool.false_ne_true
        · rw [hcompute, hitems] at hno
          cases hno
    · rcases refreshed_cases capacity registry p update b with ⟨hno, -⟩ | ⟨-, items', hitems', hb⟩
      · rcases hno with hno | ⟨error, hno⟩
        · exact absurd (hno.symm.trans hok) Bool.false_ne_true
        · rw [← hcompute, hitems] at hno
          cases hno
      · rw [← hcompute, hitems] at hitems'
        obtain rfl := Except.ok.inj hitems'
        rw [ha, hb]
        refine publishAll_agree hview fun hany => ?_
        rcases hstale with hnone | heq
        · exact absurd ((hnone items hitems).symm.trans hany) Bool.false_ne_true
        · exact heq
  · simp only [takesEffect, ← hcompute]
    rcases hstale with hnone | heq
    · cases hitems : computeItems capacity p registry (some update) a.window with
      | error error => simp
      | ok items => simp [hnone items hitems]
    · rw [heq]

/-! ## Runs -/

/-- The newest publication. -/
def newest (published : List (ProjectId × Nat)) : Nat :=
  published.foldl (fun counter entry => max counter entry.2) 0

theorem newest_append (published : List (ProjectId × Nat)) (entry : ProjectId × Nat) :
    newest (published ++ [entry]) = max (newest published) entry.2 := by
  rw [newest, List.foldl_append]
  rfl

/-- A generation is below the newest when something newer has been published. -/
theorem lt_newest {published : List (ProjectId × Nat)} {generation : Nat} :
    generation < newest published ↔ ∃ entry ∈ published, generation < entry.2 := by
  induction published using List.reverseRecOn with
  | nil => exact ⟨fun h => absurd h (Nat.not_lt_zero _), fun ⟨_, h, _⟩ => by cases h⟩
  | append_singleton published entry ih =>
      rw [newest_append, lt_max_iff, ih]
      constructor
      · rintro (⟨old, hold, hlt⟩ | hlt)
        · exact ⟨old, List.mem_append_left _ hold, hlt⟩
        · exact ⟨entry, List.mem_append_right _ (List.mem_singleton_self _), hlt⟩
      · rintro ⟨old, hold, hlt⟩
        rcases List.mem_append.mp hold with hold | hold
        · exact Or.inl ⟨old, hold, hlt⟩
        · rw [List.mem_singleton.mp hold] at hlt
          exact Or.inr hlt

/-- The publications of one project. -/
def ownPublished (p : ProjectId) (published : List (ProjectId × Nat)) : List (ProjectId × Nat) :=
  published.filter fun entry => entry.1 = p

/-- A refresh of `p` with patches to publish, after a newer publication of another
    project but none of its own. -/
def overtaken (registry : RuntimeConfigRegistry) (p : ProjectId) (shared : SharedDerived) :
    SharedCall → Bool
  | .update _ _ _ => false
  | .refresh projectId report =>
      decide (projectId = p) &&
        match reportAt p report shared with
        | none => false
        | some update =>
            !(incrementalConfigs p registry (some update) (allDerivedSeries p registry)).isEmpty &&
              decide (update.updateGeneration < newest shared.published) &&
              !decide (update.updateGeneration < newest (ownPublished p shared.published))

/-- Without an incremental formula no item reaches the generation test. -/
theorem no_patches {capacity : Nat} {p : ProjectId} {registry : RuntimeConfigRegistry}
    {update : WindowUpdateResult} {service : WindowService}
    (h : (incrementalConfigs p registry (some update) (allDerivedSeries p registry)).isEmpty =
      true) {items : List DerivedRefreshItem}
    (hitems : computeItems capacity p registry (some update) service = .ok items) :
    items.any patches = false := by
  have hnone : ∀ config ∈ allDerivedSeries p registry,
      selected (some update) config = true →
        refreshRange p registry (some update) config = none := by
    intro config hconfig hsel
    by_contra hsome
    obtain ⟨range, hrange⟩ := Option.ne_none_iff_exists'.mp hsome
    have hmem : (config, range) ∈
        incrementalConfigs p registry (some update) (allDerivedSeries p registry) :=
      List.mem_filterMap.mpr
        ⟨config, List.mem_filter.mpr ⟨hconfig, hsel⟩, by rw [hrange]; rfl⟩
    rw [List.isEmpty_iff.mp h] at hmem
    cases hmem
  have hplain : ∀ (incremental full : Option WindowQueryResult),
      ∀ config ∈ allDerivedSeries p registry,
        patches (computeOne p registry (some update) incremental full config) = false := by
    intro incremental full config hconfig
    unfold computeOne
    split
    · rfl
    split
    · rfl
    · rename_i hsel
      have hrange := hnone config hconfig (by simpa using hsel)
      simp only [hrange]
      split
      · rfl
      split
      · rfl
      · simp [computeFrom, patches]
  simp only [computeItems] at hitems
  split at hitems
  · cases hitems
  split at hitems
  · cases hitems
  · rw [← Except.ok.inj hitems, List.any_map]
    exact List.any_eq_false.mpr fun config hconfig =>
      Bool.eq_false_iff.mp (hplain _ _ config hconfig)

/-- The counter is the newest generation published, of any project. -/
theorem counter_newest (capacity : Nat) (registry : RuntimeConfigRegistry)
    {shared : SharedDerived}
    (h : shared.derived.lastPublishedGeneration = newest shared.published) (call : SharedCall) :
    (sharedStep capacity registry shared call).derived.lastPublishedGeneration =
      newest (sharedStep capacity registry shared call).published := by
  cases call with
  | update p data windowSize => exact h
  | refresh p report =>
      simp only [sharedStep]
      cases reportAt p report shared with
      | none => exact h
      | some update =>
          simp only [refreshed_counter]
          split
          · rw [newest_append, h]
          · exact h

/-- What `p` sees of two shared services is the same. -/
structure SameFor (p : ProjectId) (shared alone : SharedDerived) : Prop where
  view : projectView p shared.derived.window = projectView p alone.derived.window
  reports : shared.reports.find p = alone.reports.find p
  published : ownPublished p shared.published = alone.published
  counter : shared.derived.lastPublishedGeneration = newest shared.published
  ownCounter : alone.derived.lastPublishedGeneration = newest alone.published

/-- A call of another project. -/
theorem SameFor.hidden {p q : ProjectId} (hsep : Separate p q) (hne : q ≠ p) {capacity : Nat}
    {registry : RuntimeConfigRegistry} {shared alone : SharedDerived}
    (h : SameFor p shared alone) {call : SharedCall} (hcall : call.projectId = q) :
    SameFor p (sharedStep capacity registry shared call) alone := by
  have hcounter := counter_newest capacity registry h.counter call
  cases call with
  | update q' data windowSize =>
      obtain rfl : q' = q := hcall
      refine ⟨?_, ?_, h.published, hcounter, h.ownCounter⟩
      · rw [← h.view]
        exact update_view_other hsep data windowSize shared.derived.window
      · rw [← h.reports]
        exact find_put_of_ne (Ne.symm hne) _ _
  | refresh q' report =>
      obtain rfl : q' = q := hcall
      simp only [sharedStep] at hcounter ⊢
      cases hreport : reportAt q' report shared with
      | none => exact h
      | some update =>
          rw [hreport] at hcounter
          refine ⟨?_, h.reports, ?_, hcounter, h.ownCounter⟩
          · rw [← h.view]
            exact refreshed_view_other hsep capacity registry update shared.derived
          · rw [← h.published]
            show ownPublished p (if _ then _ else _) = _
            split
            · rw [ownPublished, List.filter_append, List.filter_cons_of_neg (by simpa using hne),
                List.filter_nil, List.append_nil]
              rfl
            · rfl

/-- A call of the project itself, not overtaken. -/
theorem SameFor.visible {p : ProjectId} {capacity : Nat} {registry : RuntimeConfigRegistry}
    {shared alone : SharedDerived} (h : SameFor p shared alone) {call : SharedCall}
    (hcall : call.projectId = p) (hfresh : overtaken registry p shared call = false) :
    SameFor p (sharedStep capacity registry shared call)
      (sharedStep capacity registry alone call) := by
  have hcounter := counter_newest capacity registry h.counter call
  have hown := counter_newest capacity registry h.ownCounter call
  cases call with
  | update p' data windowSize =>
      obtain rfl : p' = p := hcall
      obtain ⟨hview, hresult⟩ := update_congr data windowSize h.view
      refine ⟨hview, ?_, h.published, hcounter, hown⟩
      simp only [sharedStep, find_put_self, h.reports, hresult]
  | refresh p' report =>
      obtain rfl : p' = p := hcall
      have hreports : reportAt p' report alone = reportAt p' report shared := by
        rw [reportAt, reportAt, h.reports]
      simp only [sharedStep] at hcounter hown ⊢
      rw [hreports] at hown ⊢
      cases hreport : reportAt p' report shared with
      | none => exact h
      | some update =>
          rw [hreport] at hcounter hown
          have hagree := @refreshed_agree _ capacity registry update _ _ h.view ?_
          · refine ⟨hagree.1, h.reports, ?_, hcounter, hown⟩
            simp only [hagree.2]
            split
            · rw [ownPublished, List.filter_append, ← ownPublished, h.published,
                List.filter_cons_of_pos (by simp), List.filter_nil]
            · exact h.published
          -- the two counters agree unless somebody else was faster
          · by_cases hnone : (incrementalConfigs p' registry (some update)
                (allDerivedSeries p' registry)).isEmpty = true
            · exact Or.inl fun items hitems => no_patches hnone hitems
            · right
              rw [h.counter, h.ownCounter, ← h.published]
              have hle : update.updateGeneration < newest shared.published →
                  update.updateGeneration < newest (ownPublished p' shared.published) := by
                intro hlt
                by_contra hge
                simp [overtaken, hreport, hnone, hlt, hge] at hfresh
              have hge : update.updateGeneration < newest (ownPublished p' shared.published) →
                  update.updateGeneration < newest shared.published := by
                intro hlt
                obtain ⟨entry, hentry, hgt⟩ := lt_newest.mp hlt
                exact lt_newest.mpr ⟨entry, (List.mem_filter.mp hentry).1, hgt⟩
              unfold stale
              rw [decide_eq_decide]
              exact ⟨fun ⟨h0, h1⟩ => ⟨h0, hle h1⟩, fun ⟨h0, h1⟩ => ⟨h0, hge h1⟩⟩

/-- **Isolation.**  Two projects with separate keys share the service; if no
    refresh of `p` is overtaken, the run leaves every sequence of `p` as the run of
    its own calls does. -/
theorem derived_isolated (capacity : Nat) (registry : RuntimeConfigRegistry)
    (window : WindowService) {p q : ProjectId} (hsep : Separate p q) {calls : List SharedCall}
    (hcalls : ∀ call ∈ calls, call.projectId = p ∨ call.projectId = q)
    (hfresh : Admissible (sharedStep capacity registry)
      (fun shared call => overtaken registry p shared call = false)
      { derived := { window := window } } calls) (s : SequenceId) :
    (run (sharedStep capacity registry) { derived := { window := window } }
        calls).derived.window.sequenceWindows.find (scopedSequenceKey p s) =
      (run (sharedStep capacity registry) { derived := { window := window } }
        (calls.filter fun call => call.projectId = p)).derived.window.sequenceWindows.find
          (scopedSequenceKey p s) := by
  have hstart : SameFor p { derived := { window := window } } { derived := { window := window } } :=
    ⟨rfl, rfl, rfl, rfl, rfl⟩
  have hsame := @run_filter _ _ _ _ (sharedStep capacity registry) _
    (fun call => call.projectId = p) _ ?_ ?_ _ _ hstart _
    (hfresh.and (admissible_of_forall hcalls))
  · rw [← find_view, hsame.view, find_view]
  · rintro shared alone call hvisible ⟨hok, -⟩ h
    exact h.visible (of_decide_eq_true hvisible) hok
  · rintro shared alone call hhidden ⟨-, hcall⟩ h
    have hne : call.projectId ≠ p := of_decide_eq_false hhidden
    have hq := hcall.resolve_left hne
    exact h.hidden hsep (by rw [← hq]; exact hne) hq

/-! ## Two projects -/

/-- Both projects derive `d` from their own `s`. -/
def sharedConfig : RuntimeConfigRegistry :=
  ["p", "q"].foldl
    (fun registry projectId =>
      (upsertDerivedSeriesConfigs projectId
        [{ derivedSequenceId := "d", enabled := true,
           formula := .linear ⟨[⟨"s", .finite 1⟩], .finite 0⟩ }]
        (upsertInstanceConfigs projectId
          [{ sequenceId := "s", dataSourceId := "x", externalSequenceId := "s",
             dataType := "double", seriesKind := .continuous }] registry).1).1)
    {}

/-- A number of a sequence at a time. -/
def pointAt (s : SequenceId) (time : Timestamp) (value : ℚ) : RawTimeseriesPoint :=
  { time := time, sequenceId := s, value := .double (.finite value) }

/-- A batch that names no project. -/
def batchOf (points : List RawTimeseriesPoint) : TimeseriesBatch := { points := points }

/-- The two projects take turns. -/
theorem derived_isolated_turns :
    let calls : List SharedCall :=
      [.update "p" (batchOf [pointAt "s" 0 7]) none, .refresh "p" 0,
        .update "q" (batchOf [pointAt "s" 0 1]) none, .refresh "q" 0,
        .update "p" (batchOf [pointAt "s" 1 8]) none, .refresh "p" 1]
    (run (sharedStep 4 sharedConfig) { derived := { window := {} } }
        calls).derived.window.sequenceWindows.find (scopedSequenceKey "p" "d") =
      (run (sharedStep 4 sharedConfig) { derived := { window := {} } }
        (calls.filter fun call => call.projectId = "p")).derived.window.sequenceWindows.find
          (scopedSequenceKey "p" "d") :=
  derived_isolated 4 sharedConfig {} (q := "q") (by decide) (by decide) (by decide +kernel) "d"

/-- Two batches of `q`, then the first one of `p`: its refresh counts as stale. -/
theorem refresh_dropped_for_other_project :
    let calls : List SharedCall :=
      [.update "q" (batchOf [pointAt "s" 0 1]) none, .refresh "q" 0,
        .update "q" (batchOf [pointAt "s" 1 1]) none, .refresh "q" 1,
        .update "p" (batchOf [pointAt "s" 0 7]) none, .refresh "p" 0]
    retained "p" "d" (run (sharedStep 4 sharedConfig) {} calls).derived.window = [] ∧
      retained "p" "d" (run (sharedStep 4 sharedConfig) {}
        (calls.filter fun call => call.projectId = "p")).derived.window =
          [{ time := 0, sequenceId := "d", value := .double (.finite 7), projectId := "p" }] := by
  decide +kernel

end DerivedIsolation
