import TimeSeriesEngine.ServiceSlice

/-!
# What one project sees of the window service

The service keeps all projects in shared tables, under keys that start with the
project.  `projectView` is the part of the state under one project's keys:

* an operation of the project reads and writes that part only, so it commutes
  with the view (`update_view`, `query_view`, …);
* an operation of a project with separate keys leaves it alone
  (`update_view_other`, …).
-/

namespace ProjectView

open TseTypes KeyedTable HotWindow ServiceSlice

/-- The keys of neither project start with the prefix of the other. -/
def Separate (p q : ProjectId) : Prop :=
  hasPrefix (scopePrefix (effectiveProject p)) (scopePrefix (effectiveProject q)) = false ∧
    hasPrefix (scopePrefix (effectiveProject q)) (scopePrefix (effectiveProject p)) = false

instance (p q : ProjectId) : Decidable (Separate p q) := by
  unfold Separate
  infer_instance

/-- The keys of a project. -/
def ownKey (p : ProjectId) (key : String) : Bool :=
  hasPrefix (scopePrefix (effectiveProject p)) key

/-- The project, and no other. -/
def ownProject (p : ProjectId) (q : ProjectId) : Bool := decide (q = effectiveProject p)

/-- The part of the state under the keys of one project. -/
def projectView (p : ProjectId) (service : WindowService) : WindowService where
  sequenceWindows := restrict (ownKey p) service.sequenceWindows
  watermarks := restrict (ownProject p) service.watermarks
  windowSizes := restrict (ownProject p) service.windowSizes
  updateGenerations := restrict (ownProject p) service.updateGenerations

variable {p q : ProjectId}

theorem ownProject_self (p : ProjectId) : ownProject p (effectiveProject p) = true :=
  decide_eq_true rfl

theorem ownKey_self (p : ProjectId) (s : SequenceId) : ownKey p (scopedSequenceKey p s) = true :=
  hasPrefix_scopedSequenceKey p s

/-- A key that belongs to one of two separate projects does not belong to the other. -/
theorem ownKey_other (h : Separate p q) {key : String} (hq : ownKey q key = true) :
    ownKey p key = false := by
  obtain ⟨hpq, hqp⟩ := h
  refine Bool.eq_false_iff.mpr fun hp => ?_
  rcases hasPrefix_or_of_both hp hq with hle | hle
  · exact Bool.false_ne_true (hpq.symm.trans hle)
  · exact Bool.false_ne_true (hqp.symm.trans hle)

/-- A separate project is not. -/
theorem ownProject_other (h : Separate p q) : ownProject p (effectiveProject q) = false := by
  refine decide_eq_false fun he => ?_
  have hself : hasPrefix (scopePrefix (effectiveProject p)) (scopePrefix (effectiveProject p)) =
      true := List.isPrefixOf_iff_prefix.mpr List.prefix_rfl
  have hpq := h.1
  rw [he] at hpq
  exact Bool.false_ne_true (hpq.symm.trans hself)

/-! ## The view as a slice -/

/-- What belongs to one project. -/
def ownSlice (p : ProjectId) : Slice := ⟨ownKey p, ownProject p⟩

theorem ownSlice_owns (p : ProjectId) : (ownSlice p).Owns p where
  keys := fun _ h => h
  project := ownProject_self p

theorem ownSlice_ignores (h : Separate p q) : (ownSlice p).Ignores q where
  keys := fun _ hkey => ownKey_other h hkey
  project := ownProject_other h

theorem find_view (p : ProjectId) (s : SequenceId) (service : WindowService) :
    (projectView p service).sequenceWindows.find (scopedSequenceKey p s) =
      service.sequenceWindows.find (scopedSequenceKey p s) :=
  find_restrict (ownKey_self p s) _

/-- **An update of the project reads and writes its own part.** -/
theorem update_view (p : ProjectId) (data : TimeseriesBatch) (override : Option Int)
    (service : WindowService) :
    updateWindowIncremental p data override (projectView p service) =
      (projectView p (updateWindowIncremental p data override service).1,
        (updateWindowIncremental p data override service).2) :=
  update_slice (ownSlice_owns p) data override service

/-- **An update of another project leaves the part alone.** -/
theorem update_view_other (h : Separate p q) (data : TimeseriesBatch) (override : Option Int)
    (service : WindowService) :
    projectView p (updateWindowIncremental q data override service).1 =
      projectView p service :=
  update_ignored (ownSlice_ignores h) data override service

theorem query_view (capacity : Nat) (p : ProjectId) (query : WindowQuery)
    (service : WindowService) :
    queryWindowData capacity p query (projectView p service) =
      queryWindowData capacity p query service :=
  query_slice (ownSlice_owns p) capacity query service

theorem replace_view (p : ProjectId) (s : SequenceId) (data : TimeseriesBatch)
    (service : WindowService) :
    replaceDerivedSequence p s data (projectView p service) =
      (projectView p (replaceDerivedSequence p s data service).1,
        (replaceDerivedSequence p s data service).2) :=
  replace_slice (ownSlice_owns p) s data service

theorem replace_view_other (h : Separate p q) (s : SequenceId) (data : TimeseriesBatch)
    (service : WindowService) :
    projectView p (replaceDerivedSequence q s data service).1 = projectView p service :=
  replace_ignored (ownSlice_ignores h) s data service

theorem patch_view (p : ProjectId) (s : SequenceId) (startTime endTime : Timestamp)
    (data : TimeseriesBatch) (service : WindowService) :
    patchDerivedSequence p s startTime endTime data (projectView p service) =
      (projectView p (patchDerivedSequence p s startTime endTime data service).1,
        (patchDerivedSequence p s startTime endTime data service).2) :=
  patch_slice (ownSlice_owns p) s startTime endTime data service

theorem patch_view_other (h : Separate p q) (s : SequenceId) (startTime endTime : Timestamp)
    (data : TimeseriesBatch) (service : WindowService) :
    projectView p (patchDerivedSequence q s startTime endTime data service).1 =
      projectView p service :=
  patch_ignored (ownSlice_ignores h) s startTime endTime data service

end ProjectView
