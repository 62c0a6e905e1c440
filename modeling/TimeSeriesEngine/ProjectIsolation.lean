import TimeSeriesEngine.RegistrySlice
import TimeSeriesEngine.Library.Transition

/-!
# Isolation of projects in the registry and the hot window

All projects share flat tables whose keys begin with the project id and the
separator U+001E.  An id may itself contain the separator, so the keys of one
project can begin with the prefix of another.  What decides is the root of an id:
its first character with everything up to the next separator.

* Projects with different roots are isolated, whatever the other projects are
  called (`isolated_of_roots`).
* Of two projects with the same root, one can change what the other sees
  (`not_isolated`), directly or through the project whose id is the root.
-/

namespace ProjectIsolation

open TseTypes KeyedTable ConstraintCheck Registry HotWindow WindowRefinement ServiceSlice
open RegistrySlice Transition

/-! ## Runs over all projects -/

/-- The registry and the window service. -/
structure State where
  registry : RuntimeConfigRegistry := {}
  window : WindowService := {}

/-- The operations of a project. -/
inductive ProjectOp where
  | replaceInstances (items : List RuntimeInstanceConfig)
  | upsertInstances (items : List RuntimeInstanceConfig)
  | replaceConstraints (items : List RuntimeConstraintConfig)
  | upsertConstraints (items : List RuntimeConstraintConfig)
  | replaceRelations (items : List RuntimeRelationConfig)
  | upsertRelations (items : List RuntimeRelationConfig)
  | upsertDerivedSeries (items : List RuntimeDerivedSeriesConfig)
  | window (op : WindowOp)

/-- An operation, and whose it is. -/
structure ProjectCall where
  projectId : ProjectId
  op : ProjectOp

/-- The state behind a call. -/
def perform (state : State) (call : ProjectCall) : State :=
  match call.op with
  | .replaceInstances items =>
      { state with registry := (replaceInstanceConfigs call.projectId items state.registry).1 }
  | .upsertInstances items =>
      { state with registry := (upsertInstanceConfigs call.projectId items state.registry).1 }
  | .replaceConstraints items =>
      { state with registry := (Registry.replaceConstraints call.projectId items state.registry).1 }
  | .upsertConstraints items =>
      { state with registry := (Registry.upsertConstraints call.projectId items state.registry).1 }
  | .replaceRelations items =>
      { state with registry := (Registry.replaceRelations call.projectId items state.registry).1 }
  | .upsertRelations items =>
      { state with registry := (Registry.upsertRelations call.projectId items state.registry).1 }
  | .upsertDerivedSeries items =>
      { state with registry := (upsertDerivedSeriesConfigs call.projectId items state.registry).1 }
  | .window op => { state with window := serviceStep call.projectId state.window op }

/-- The run without the operations of a project. -/
def without (p : ProjectId) (calls : List ProjectCall) : List ProjectCall :=
  calls.filter fun call => decide (effectiveProject call.projectId ≠ p)

/-- Every lookup of a project answers the same in two states. -/
structure SameAnswers (q : ProjectId) (a b : State) : Prop where
  instances : ∀ s, findInstance q s a.registry = findInstance q s b.registry
  sequences : ∀ dataSourceId externalId,
    resolveSequenceId q dataSourceId externalId a.registry =
      resolveSequenceId q dataSourceId externalId b.registry
  constraints : ∀ ids, lookupConstraints q a.registry ids = lookupConstraints q b.registry ids
  enabled : allEnabledConstraints q a.registry = allEnabledConstraints q b.registry
  derived : allDerivedSeries q a.registry = allDerivedSeries q b.registry
  relations : ∀ id, findRelation q id a.registry = findRelation q id b.registry
  windows : ∀ capacity query,
    queryWindowData capacity q query a.window = queryWindowData capacity q query b.window
  statistics : ∀ ids,
    (queryWindowStatistics q ids a.window).2 = (queryWindowStatistics q ids b.window).2

/-- What a project sees does not depend on the operations of another. -/
def IsolatedFrom (q p : ProjectId) : Prop :=
  ∀ calls : List ProjectCall,
    SameAnswers q (run perform {} calls) (run perform {} (without p calls))

/-! ## Roots -/

/-- The first character of an id and what follows it up to the next separator. -/
def root (id : String) : List Char :=
  match id.toList with
  | [] => []
  | c :: cs => c :: cs.takeWhile fun x => decide (x ≠ '\x1e')

theorem takeWhile_append_stop {α : Type} {keep : α → Bool} {x : α} (hx : keep x = false)
    (xs ys : List α) : (xs ++ x :: ys).takeWhile keep = xs.takeWhile keep := by
  induction xs with
  | nil => simp [hx]
  | cons y xs ih =>
      rw [List.cons_append, List.takeWhile_cons, List.takeWhile_cons, ih]

/-- A key has the root of every project it belongs to. -/
theorem root_of_sees {p key : String} (hp : p ≠ "")
    (h : hasPrefix (scopePrefix p) key = true) : root key = root p := by
  obtain ⟨id, rfl⟩ := hasPrefix_iff.mp h
  have hchars : (scopePrefix p ++ id).toList = p.toList ++ '\x1e' :: id.toList := by
    simp [scopePrefix, String.toList_append]
  rw [root, root, hchars]
  cases hlist : p.toList with
  | nil => exact absurd (String.toList_eq_nil_iff.mp hlist) hp
  | cons c cs =>
      rw [List.cons_append]
      exact congrArg (c :: ·) (takeWhile_append_stop (by decide) cs id.toList)

/-- The entries of all projects with one root. -/
def rootSlice (q : ProjectId) : Slice where
  keepKey := fun key => decide (root key = root q)
  keepProject := fun project => decide (root project = root q)

theorem rootSlice_owns {p q : ProjectId} (h : root (effectiveProject p) = root q) :
    (rootSlice q).Owns p where
  keys := fun _ hkey =>
    decide_eq_true ((root_of_sees (effectiveProject_ne_empty p) hkey).trans h)
  project := decide_eq_true h

theorem rootSlice_ignores {p q : ProjectId} (h : root (effectiveProject p) ≠ root q) :
    (rootSlice q).Ignores p where
  keys := fun _ hkey => decide_eq_false fun heq =>
    h ((root_of_sees (effectiveProject_ne_empty p) hkey).symm.trans heq)
  project := decide_eq_false h

/-! ## Different roots -/

/-- What a slice of the keys shows of the state. -/
def stateView (slice : Slice) (state : State) : State :=
  ⟨registryView slice state.registry, slice.view state.window⟩

/-- A call inside a slice depends on the slice. -/
theorem perform_slice {slice : Slice} {call : ProjectCall} (h : slice.Owns call.projectId)
    (state : State) :
    perform (stateView slice state) call = stateView slice (perform state call) := by
  obtain ⟨projectId, op⟩ := call
  cases op with
  | replaceInstances items =>
      simp only [perform, stateView, replaceInstanceConfigs_slice h]
  | upsertInstances items => simp only [perform, stateView, upsertInstanceConfigs_slice h]
  | replaceConstraints items => simp only [perform, stateView, replaceConstraints_slice h]
  | upsertConstraints items => simp only [perform, stateView, upsertConstraints_slice h]
  | replaceRelations items => simp only [perform, stateView, replaceRelations_slice h]
  | upsertRelations items => simp only [perform, stateView, upsertRelations_slice h]
  | upsertDerivedSeries items =>
      simp only [perform, stateView, upsertDerivedSeriesConfigs_slice h]
  | window op => simp only [perform, stateView, serviceStep_slice h]

/-- A call outside a slice leaves it. -/
theorem perform_ignored {slice : Slice} {call : ProjectCall} (h : slice.Ignores call.projectId)
    (state : State) : stateView slice (perform state call) = stateView slice state := by
  obtain ⟨projectId, op⟩ := call
  cases op with
  | replaceInstances items =>
      simp only [perform, stateView, replaceInstanceConfigs_ignored h]
  | upsertInstances items => simp only [perform, stateView, upsertInstanceConfigs_ignored h]
  | replaceConstraints items => simp only [perform, stateView, replaceConstraints_ignored h]
  | upsertConstraints items => simp only [perform, stateView, upsertConstraints_ignored h]
  | replaceRelations items => simp only [perform, stateView, replaceRelations_ignored h]
  | upsertRelations items => simp only [perform, stateView, upsertRelations_ignored h]
  | upsertDerivedSeries items =>
      simp only [perform, stateView, upsertDerivedSeriesConfigs_ignored h]
  | window op => simp only [perform, stateView, serviceStep_ignored h]

/-- What a project sees, it sees in the slice. -/
theorem sameAnswers_of_view {q : ProjectId} (hq : q ≠ "") {slice : Slice} (h : slice.Owns q)
    {a b : State} (hview : stateView slice a = stateView slice b) : SameAnswers q a b := by
  have heff : effectiveProject q = q := effectiveProject_of_ne hq
  have hregistry : registryView slice a.registry = registryView slice b.registry :=
    congrArg State.registry hview
  have hwindow : slice.view a.window = slice.view b.window := congrArg State.window hview
  refine ⟨fun s => ?_, fun d e => ?_, fun ids => ?_, ?_, ?_, fun id => ?_, fun capacity query => ?_,
    fun ids => ?_⟩
  · rw [← heff, ← findInstance_slice h, hregistry, findInstance_slice h]
  · rw [← heff, ← resolveSequenceId_slice h, hregistry, resolveSequenceId_slice h]
  · rw [← heff, ← lookupConstraints_slice h, hregistry, lookupConstraints_slice h]
  · rw [← heff, ← allEnabledConstraints_slice h, hregistry, allEnabledConstraints_slice h]
  · rw [← heff, ← allDerivedSeries_slice h, hregistry, allDerivedSeries_slice h]
  · rw [← heff, ← findRelation_slice h, hregistry, findRelation_slice h]
  · rw [← query_slice h, hwindow, query_slice h]
  · have ha := congrArg Prod.snd (statistics_slice h ids a.window)
    have hb := congrArg Prod.snd (statistics_slice h ids b.window)
    rw [hwindow] at ha
    exact ha.symm.trans hb

/-- **Projects with different roots are isolated.** -/
theorem isolated_of_roots {p q : ProjectId} (hq : q ≠ "") (hroots : root p ≠ root q) :
    IsolatedFrom q p := by
  intro calls
  have howns : (rootSlice q).Owns q :=
    rootSlice_owns (congrArg root (effectiveProject_of_ne hq))
  refine sameAnswers_of_view hq howns ?_
  refine @run_filter _ _ _ perform perform
    (fun s t => stateView (rootSlice q) s = stateView (rootSlice q) t)
    (fun call => decide (effectiveProject call.projectId ≠ p)) (fun _ _ => True)
    (fun s t call _ _ hst => ?_) (fun s t call hhidden _ hst => ?_) {} {} rfl calls
    (admissible_of_forall fun _ _ => trivial)
  · -- an operation of the same root acts on the slice, any other leaves it alone
    by_cases hroot : root (effectiveProject call.projectId) = root q
    · rw [← perform_slice (rootSlice_owns hroot), hst, perform_slice (rootSlice_owns hroot)]
    · rw [perform_ignored (rootSlice_ignores hroot), perform_ignored (rootSlice_ignores hroot), hst]
  · have hp : effectiveProject call.projectId = p := by simpa using hhidden
    have hother : root (effectiveProject call.projectId) ≠ root q := by
      rw [hp]
      exact hroots
    rw [perform_ignored (rootSlice_ignores hother), hst]

/-! ## One root -/

/-- An id is its root, or goes on after a separator. -/
theorem root_cases {id : String} (hid : id ≠ "") :
    id = String.ofList (root id) ∨ ∃ rest, id = scopedKey (String.ofList (root id)) rest := by
  cases hlist : id.toList with
  | nil => exact absurd (String.toList_eq_nil_iff.mp hlist) hid
  | cons c cs =>
      have hroot : root id = c :: cs.takeWhile fun x => decide (x ≠ '\x1e') := by
        rw [root, hlist]
      have hsplit : cs = (cs.takeWhile fun x => decide (x ≠ '\x1e')) ++
          cs.dropWhile fun x => decide (x ≠ '\x1e') :=
        (List.takeWhile_append_dropWhile ..).symm
      cases hdrop : cs.dropWhile fun x => decide (x ≠ '\x1e') with
      | nil =>
          left
          refine String.toList_inj.mp ?_
          rw [hdrop, List.append_nil] at hsplit
          rw [String.toList_ofList, hlist, hroot, ← hsplit]
      | cons x rest =>
          right
          have hstop : x = '\x1e' := by
            have hne := List.head?_dropWhile_not (fun x => decide (x ≠ '\x1e')) cs
            rw [hdrop] at hne
            simpa using hne
          refine ⟨String.ofList rest, String.toList_inj.mp ?_⟩
          rw [hdrop, hstop] at hsplit
          simp only [scopedKey, scopePrefix, String.toList_append, String.toList_ofList, hroot,
            hlist]
          rw [List.cons_append, List.cons_append]
          refine congrArg (c :: ·) (hsplit.trans ?_)
          simp

theorem scopedKey_assoc (r p s : String) :
    scopedKey (scopedKey r p) s = scopedKey r (scopedKey p s) := by
  simp [scopedKey, scopePrefix, String.append_assoc]

theorem scopedKey_ne_empty (p s : String) : scopedKey p s ≠ "" := by
  intro h
  have hchars := congrArg String.toList h
  simp [scopedKey, scopePrefix, String.toList_append] at hchars

/-- A longer id is not its own prefix. -/
theorem scopedKey_ne_self (r p : String) : scopedKey r p ≠ r := by
  intro h
  have hlength := congrArg (fun s => s.toList.length) h
  simp [scopedKey, scopePrefix, String.toList_append] at hlength

/-! The operations that show it: one relation, one instance, one rule. -/

/-- A relation of `s` and `t`. -/
private def sampleRelation : RuntimeRelationConfig :=
  { relationId := "r"
    sources := [{ sourceSequenceId := "s", weight := .finite 1 }]
    targetSequenceId := "t"
    confidence := .finite 1 }

/-- The instance `s`. -/
private def sampleInstance : RuntimeInstanceConfig :=
  { sequenceId := "s", dataSourceId := "d", externalSequenceId := "e" }

/-- A rule with a given id over one given sequence. -/
private def sampleRule (id sequenceId : String) : RuntimeConstraintConfig :=
  { rule :=
      { constraintId := id
        variableMapping := put "x" sequenceId KeyedTable.empty
        upperBound := some (.finite 1)
        terms :=
          [{ variableName := "x", coefficient := .finite 1, sampleOffset_le := offset_zero_le }] }
    enabled := true }

theorem upsertRelations_sample {p : ProjectId} (hp : p ≠ "") :
    (upsertRelations p [sampleRelation] {}).1.relations =
      put (scopedKey p "r") { sampleRelation with projectId := p } KeyedTable.empty := by
  simp only [upsertRelations, snapshotProject, effectiveProject_of_ne hp]
  rfl

theorem upsertInstances_sample {p : ProjectId} (hp : p ≠ "") :
    (upsertInstanceConfigs p [sampleInstance] {}).1.instanceConfigs =
      put (scopedKey p "s") { sampleInstance with projectId := p } KeyedTable.empty := by
  simp only [upsertInstanceConfigs, snapshotProject, effectiveProject_of_ne hp]
  rfl

theorem sampleRule_valid {id : String} (hid : id ≠ "") (sequenceId : String) :
    ∃ properties, validateConstraintRule (sampleRule id sequenceId).rule = .ok properties := by
  have hfull : id.isEmpty = false := by simpa [String.isEmpty_iff] using hid
  have hname : (sampleRule id sequenceId).rule.constraintId.isEmpty = false := hfull
  rw [validateConstraintRule, hname]
  exact ⟨_, rfl⟩

/-- A rule over one sequence is stored exactly when the project has the sequence. -/
theorem upsertConstraints_sample {p : ProjectId} (hp : p ≠ "") {id : String} (hid : id ≠ "")
    (sequenceId : String) (registry : RuntimeConfigRegistry) :
    (upsertConstraints p [sampleRule id sequenceId] registry).1.constraints =
      if (findInstance p sequenceId registry).isSome = true then
        put (scopedKey p id) { sampleRule id sequenceId with projectId := p } registry.constraints
      else registry.constraints := by
  obtain ⟨properties, hvalid⟩ := sampleRule_valid hid sequenceId
  have hunknown : unknownSequence p (sampleRule id sequenceId).rule registry =
      if (findInstance p sequenceId registry).isNone = true then
        some ("constraint references an unknown sequence: " ++ sequenceId)
      else none := by
    have hkeys : (sampleRule id sequenceId).rule.variableMapping.keys = ["x"] := rfl
    have hfind : (sampleRule id sequenceId).rule.variableMapping.find "x" = some sequenceId := rfl
    rw [unknownSequence, hkeys]
    simp only [List.findSome?_cons, hfind, Option.getD_some]
    cases findInstance p sequenceId registry with
    | none => rfl
    | some config => rfl
  simp only [upsertConstraints, snapshotProject, effectiveProject_of_ne hp, upsertConstraintItems,
    hvalid, hunknown]
  cases findInstance p sequenceId registry with
  | none => rfl
  | some config => rfl

/-- A replacement drops what a project with a longer id has stored. -/
theorem replace_drops {p : ProjectId} (hp : p ≠ "") (rest : String) :
    ¬ IsolatedFrom (scopedKey p rest) p := by
  intro h
  have hq := scopedKey_ne_empty p rest
  have hne := scopedKey_ne_self p rest
  have hlookup := (h [⟨scopedKey p rest, .upsertRelations [sampleRelation]⟩,
    ⟨p, .replaceRelations []⟩]).relations "r"
  have hwithout : without p [⟨scopedKey p rest, .upsertRelations [sampleRelation]⟩,
      ⟨p, .replaceRelations []⟩] =
      [⟨scopedKey p rest, .upsertRelations [sampleRelation]⟩] := by
    simp [without, effectiveProject_of_ne hp, effectiveProject_of_ne hq, hne]
  rw [hwithout] at hlookup
  simp only [run_cons, run_nil, perform, findRelation] at hlookup
  have hsees : hasPrefix (scopePrefix p) (scopedKey (scopedKey p rest) "r") = true := by
    rw [scopedKey_assoc]
    exact scopedKey_sees p _
  have hdropped : (replaceRelations p [] (upsertRelations (scopedKey p rest) [sampleRelation]
      {}).1).1.relations.find (scopedKey (scopedKey p rest) "r") = none := by
    simp only [replaceRelations, replaceRelationItems, snapshotProject, effectiveProject_of_ne hp,
      carryOver, find_adopt, hsees]
    rfl
  rw [hdropped, upsertRelations_sample hq, find_put_self] at hlookup
  cases hlookup

/-- A project with a longer id stores under keys of a shorter one. -/
theorem upsert_reaches {q : ProjectId} (rest : String) : ¬ IsolatedFrom q (scopedKey q rest) := by
  intro h
  have hp := scopedKey_ne_empty q rest
  have hlookup := (h [⟨scopedKey q rest, .upsertRelations [sampleRelation]⟩]).relations
    (scopedKey rest "r")
  have hwithout : without (scopedKey q rest)
      [⟨scopedKey q rest, .upsertRelations [sampleRelation]⟩] = [] := by
    simp [without, effectiveProject_of_ne hp]
  rw [hwithout] at hlookup
  simp only [run_cons, run_nil, perform, findRelation, upsertRelations_sample hp] at hlookup
  rw [scopedKey_assoc, find_put_self] at hlookup
  cases hlookup

/-- An instance of one project lets the project of the root store a rule the other sees. -/
theorem rule_reaches {r : ProjectId} (hr : r ≠ "") (rest rest' : String) :
    ¬ IsolatedFrom (scopedKey r rest') (scopedKey r rest) := by
  intro h
  have hp := scopedKey_ne_empty r rest
  have hid := scopedKey_ne_empty rest' "c"
  have hlookup := (h [⟨scopedKey r rest, .upsertInstances [sampleInstance]⟩,
    ⟨r, .upsertConstraints [sampleRule (scopedKey rest' "c") (scopedKey rest "s")]⟩]).constraints
      ["c"]
  have hwithout : without (scopedKey r rest) [⟨scopedKey r rest, .upsertInstances [sampleInstance]⟩,
      ⟨r, .upsertConstraints [sampleRule (scopedKey rest' "c") (scopedKey rest "s")]⟩] =
      [⟨r, .upsertConstraints [sampleRule (scopedKey rest' "c") (scopedKey rest "s")]⟩] := by
    simp [without, effectiveProject_of_ne hp, effectiveProject_of_ne hr,
      (scopedKey_ne_self r rest).symm]
  rw [hwithout] at hlookup
  simp only [run_cons, run_nil, perform, lookupConstraints, List.foldl_cons, List.foldl_nil,
    upsertConstraints_sample hr hid] at hlookup
  have hfound : (findInstance r (scopedKey rest "s")
      (upsertInstanceConfigs (scopedKey r rest) [sampleInstance] {}).1).isSome = true := by
    rw [findInstance, upsertInstances_sample hp, scopedKey_assoc, find_put_self]
    rfl
  have hmissing : (findInstance r (scopedKey rest "s") {}).isSome = false := rfl
  rw [if_pos hfound, hmissing, scopedKey_assoc, find_put_self] at hlookup
  -- enabled in the whole run, missing in the other
  cases congrArg ConstraintLookupResult.missingIds hlookup

/-- Two projects of one root are not isolated. -/
theorem not_isolated {p q : ProjectId} (hp : p ≠ "") (hq : q ≠ "") (hne : p ≠ q)
    (hroots : root p = root q) : ¬ IsolatedFrom q p := by
  have hroot : String.ofList (root q) ≠ "" := by
    cases hlist : q.toList with
    | nil => exact absurd (String.toList_eq_nil_iff.mp hlist) hq
    | cons c cs =>
        rw [root, hlist]
        intro hempty
        have hchars := congrArg String.toList hempty
        rw [String.toList_ofList] at hchars
        cases hchars
  have hpcases := root_cases hp
  have hqcases := root_cases hq
  rw [hroots] at hpcases
  generalize String.ofList (root q) = r at hroot hpcases hqcases
  rcases hpcases with rfl | ⟨rest, rfl⟩
  · rcases hqcases with hqeq | ⟨rest', rfl⟩
    · exact absurd hqeq.symm hne
    · exact replace_drops hp rest'
  · rcases hqcases with rfl | ⟨rest', rfl⟩
    · exact upsert_reaches rest
    · exact rule_reaches hroot rest rest'

/-- **Two projects are isolated exactly when their roots differ.** -/
theorem isolated_iff {p q : ProjectId} (hp : p ≠ "") (hq : q ≠ "") (hne : p ≠ q) :
    IsolatedFrom q p ↔ root p ≠ root q :=
  ⟨fun h hroots => not_isolated hp hq hne hroots h, isolated_of_roots hq⟩

/-- Two plain projects. -/
theorem isolated_iff_two_projects : IsolatedFrom "b" "a" ↔ root "a" ≠ root "b" :=
  isolated_iff (by decide) (by decide) (by decide)

/-- A run in which the projects `a` and `a<U+001E>b` are not isolated. -/
theorem nested_projects_not_isolated :
    ¬ ∀ p q : ProjectId, p ≠ "" → q ≠ "" → p ≠ q → IsolatedFrom q p :=
  fun h => replace_drops (by decide) "b" (h "a" (scopedKey "a" "b") (by decide)
    (scopedKey_ne_empty "a" "b") (scopedKey_ne_self "a" "b").symm)

end ProjectIsolation
