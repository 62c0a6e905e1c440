import Mathlib.Data.List.Induction
import TimeSeriesEngine.DerivedPublish
import TimeSeriesEngine.FormulaValue

/-!
# Patching a derived sequence

An incremental refresh queries the affected range with one point of context on
either side, evaluates a formula there and patches its sequence from the earliest
of the predecessors on.

* `contextSlice` — what the query returns of one source;
* `PatchCovers` — no value of the formula lies between the predecessors of two
  sources, where the patch erases and the query has nothing to compute from;
* `LiveSuffices` — the same question for a full refresh and the live window;
* `Appended.patched` — under `PatchCovers`, the kept part and the patch together
  are what the sources derive.
-/

namespace DerivedPatch

open TseTypes KeyedTable OrderedSeries PiecewiseLinear SeqContent HotWindow WindowContent
open WindowUpdate WindowRefinement Registry UpdateRange DerivedSeries FormulaValue IngestFrame
open DerivedPublish

/-! ## Accepted formulas -/

/-- Every instance of the project is filed under its own id. -/
structure InstancesFiled (p : ProjectId) (registry : RuntimeConfigRegistry) : Prop where
  found : ∀ config ∈ projectConfigs p registry.instanceConfigs,
    findInstance p config.sequenceId registry = some config
  own : ∀ s config, findInstance p s registry = some config → config.sequenceId = s

/-- Derived formulas as the registry accepts them: each passes its checks against the
    instances of the project, and no two write the same sequence. -/
structure AcceptedSet (p : ProjectId) (registry : RuntimeConfigRegistry) : Prop where
  filed : InstancesFiled p registry
  ids : ((allDerivedSeries p registry).map
    RuntimeDerivedSeriesConfig.derivedSequenceId).Nodup
  accepted : ∀ config ∈ allDerivedSeries p registry,
    validateDerivedConfig (projectConfigs p registry.instanceConfigs) config = none

/-- The sources of an accepted expression are numeric instances. -/
theorem collectSources_accepted {instances : List RuntimeInstanceConfig}
    {expression : DerivedExpression}
    (h : validateDerivedExpression instances expression = none) {seen : List SequenceId}
    {s : SequenceId} (hs : s ∈ collectSources expression seen) :
    s ∈ seen ∨ s ≠ "" ∧ numericInstance instances s = true := by
  induction expression generalizing seen with
  | sequence sequenceId =>
      rcases (mem_pushUnique _ _ _).mp hs with rfl | hold
      · right
        rw [validateDerivedExpression] at h
        split at h
        · cases h
        · rename_i hne
          split at h
          · cases h
          · rename_i hnum
            exact ⟨by simpa [String.isEmpty_iff] using hne, by simpa using hnum⟩
      · exact Or.inl hold
  | constant value => exact Or.inl hs
  | binary operation left right ihl ihr =>
      rw [validateDerivedExpression] at h
      split at h
      · cases h
      · cases hl : validateDerivedExpression instances left with
        | some error =>
            rw [hl] at h
            cases h
        | none =>
            rw [hl] at h
            rcases ihr h hs with hleft | hgood
            · exact ihl hl hleft
            · exact Or.inr hgood
  | missing => exact Or.inl hs

/-- An expression with a sequence has a source. -/
theorem collectSources_ne_nil {expression : DerivedExpression}
    (h : containsSequenceLeaf expression = true) (seen : List SequenceId) :
    collectSources expression seen ≠ [] := by
  induction expression generalizing seen with
  | sequence sequenceId =>
      exact List.ne_nil_of_mem ((mem_pushUnique sequenceId sequenceId seen).mpr (Or.inl rfl))
  | constant value => cases h
  | binary operation left right ihl ihr =>
      rw [containsSequenceLeaf, Bool.or_eq_true] at h
      rcases h with hl | hr
      · obtain ⟨s, hs⟩ := List.exists_mem_of_ne_nil _ (ihl hl seen)
        exact List.ne_nil_of_mem (mem_collectSources right hs)
      · exact ihr hr _
  | missing => cases h

/-- The sources of accepted terms are numeric instances. -/
theorem linearTerms_accepted {instances : List RuntimeInstanceConfig}
    {terms : List DerivedLinearTerm} {seen : List SequenceId}
    (h : validateLinearTerms instances terms seen = none) :
    ∀ term ∈ terms, term.sequenceId ≠ "" ∧ numericInstance instances term.sequenceId = true := by
  induction terms generalizing seen with
  | nil =>
      intro term hterm
      cases hterm
  | cons first rest ih =>
      rw [validateLinearTerms] at h
      split at h
      · cases h
      rename_i hvalid
      split at h
      · cases h
      rename_i hnum
      split at h
      · cases h
      intro term hterm
      rcases List.mem_cons.mp hterm with rfl | hrest
      · refine ⟨fun hempty => hvalid ?_, by simpa using hnum⟩
        rw [hempty]
        rfl
      · exact ih h term hrest

/-- What the registry's check says about the sources of a formula. -/
theorem accepted_sources {instances : List RuntimeInstanceConfig}
    {config : RuntimeDerivedSeriesConfig} (h : validateDerivedConfig instances config = none) :
    config.derivedSequenceId ≠ "" ∧
      (∀ c ∈ instances, c.sequenceId ≠ config.derivedSequenceId) ∧
      sourcesFor config ≠ [] ∧
      ∀ s ∈ sourcesFor config, s ≠ "" ∧ numericInstance instances s = true := by
  unfold validateDerivedConfig at h
  split at h
  · cases h
  rename_i hempty
  split at h
  · cases h
  rename_i hconflict
  have hplain : ∀ c ∈ instances, c.sequenceId ≠ config.derivedSequenceId := by
    intro c hc heq
    exact hconflict (List.any_eq_true.mpr ⟨c, hc, decide_eq_true heq⟩)
  refine ⟨by simpa [String.isEmpty_iff] using hempty, hplain, ?_⟩
  cases hf : config.formula with
  | linear combination =>
      rw [hf] at h
      simp only at h
      split at h
      · cases h
      rename_i hterms
      have hne : combination.terms ≠ [] := by
        intro hnil
        rw [hnil] at hterms
        exact hterms rfl
      -- every term is checked, and there is one
      have hgood := linearTerms_accepted h
      constructor
      · obtain ⟨term, hterm⟩ := List.exists_mem_of_ne_nil _ hne
        exact List.ne_nil_of_mem ((mem_sourcesFor_linear hf _).mpr ⟨term, hterm, rfl⟩)
      · intro s hs
        obtain ⟨term, hterm, rfl⟩ := (mem_sourcesFor_linear hf s).mp hs
        exact hgood term hterm
  | expression expression =>
      rw [hf] at h
      simp only at h
      split at h
      · cases h
      rename_i hleaf
      have hsources : sourcesFor config = collectSources expression [] := by
        unfold sourcesFor
        rw [hf]
      rw [hsources]
      constructor
      · exact collectSources_ne_nil (by simpa using hleaf) []
      · intro s hs
        exact (collectSources_accepted h hs).resolve_left fun hnil => by cases hnil

section Accepted

variable {p : ProjectId} {registry : RuntimeConfigRegistry} {config : RuntimeDerivedSeriesConfig}

/-- The sources of an accepted series are numeric. -/
theorem AcceptedSet.numeric (h : AcceptedSet p registry)
    (hconfig : config ∈ allDerivedSeries p registry) : NumericSources p registry config := by
  intro s hs
  obtain ⟨-, -, -, hgood⟩ := accepted_sources (h.accepted config hconfig)
  obtain ⟨found, hfound, hcontinuous⟩ := (Option.any_eq_true _ _).mp (hgood s hs).2
  have hid : found.sequenceId = s := by simpa using List.find?_some hfound
  have hfind := h.filed.found found (List.mem_of_find?_eq_some hfound)
  rw [hid] at hfind
  rw [numericSourceConfig, hfind]
  exact hcontinuous

/-- A derived sequence is no instance. -/
theorem AcceptedSet.plain (h : AcceptedSet p registry)
    (hconfig : config ∈ allDerivedSeries p registry) :
    findInstance p config.derivedSequenceId registry = none := by
  obtain ⟨-, hplain, -, -⟩ := accepted_sources (h.accepted config hconfig)
  cases hf : findInstance p config.derivedSequenceId registry with
  | none => rfl
  | some found =>
      refine absurd (h.filed.own _ _ hf) (hplain found ?_)
      refine List.mem_filterMap.mpr ⟨scopedKey p config.derivedSequenceId, ?_, hf⟩
      refine List.mem_filter.mpr ⟨?_, hasPrefix_append _ _⟩
      rw [registry.instanceConfigs.mem_keys]
      exact Option.isSome_iff_exists.mpr ⟨found, hf⟩

end Accepted

/-! ## What the incremental query returns -/

/-- One sequence of the query around a range, with one point of context. -/
def contextSlice (start finish : Timestamp) (points : List RawTimeseriesPoint) :
    List RawTimeseriesPoint :=
  sliceOf start (queryEnd finish) 1 1 points

theorem lastN_one (points : List RawTimeseriesPoint) :
    lastN 1 points = points.getLast?.toList := by
  induction points using List.reverseRecOn with
  | nil => rfl
  | append_singleton front last _ =>
      rw [lastN, List.length_append, List.length_singleton, Nat.add_sub_cancel, List.drop_left,
        List.getLast?_append]
      rfl

theorem le_queryEnd (finish : Timestamp) : finish ≤ queryEnd finish := by
  unfold queryEnd
  split
  · exact le_refl _
  · exact Int.le_add_one (le_refl _)

/-- A time up to the end of the range is in front of the query's end, or at it. -/
theorem lt_queryEnd {t finish : Timestamp} (h : t ≤ finish) :
    t < queryEnd finish ∨ t = queryEnd finish := by
  unfold queryEnd
  split
  · exact lt_or_eq_of_le h
  · exact Or.inl (Int.lt_add_one_of_le h)

section ContextSlice

variable {points : List RawTimeseriesPoint} {start finish : Timestamp}

theorem contextSlice_slice (start finish : Timestamp) (points : List RawTimeseriesPoint) :
    contextSlice start finish points <:+: points := sliceOf_within ..

/-- The points of the range are returned. -/
theorem mem_contextSlice_range (h : Ascending RawTimeseriesPoint.time points)
    {q : RawTimeseriesPoint} (hq : q ∈ points) (hle : start ≤ q.time) (hge : q.time ≤ finish) :
    q ∈ contextSlice start finish points := by
  have hrest : q ∈ atOrAbove RawTimeseriesPoint.time start points :=
    (h.mem_atOrAbove _).mpr ⟨hq, hle⟩
  have hasc := h.atOrAbove RawTimeseriesPoint.time start
  unfold contextSlice sliceOf
  rcases lt_queryEnd hge with hlt | heq
  · exact List.mem_append_left _ (List.mem_append_right _ ((hasc.mem_below _).mpr ⟨hrest, hlt⟩))
  · -- at the largest timestamp the point itself is the following one
    refine List.mem_append_right _ ?_
    have hmem : q ∈ atOrAbove RawTimeseriesPoint.time (queryEnd finish)
        (atOrAbove RawTimeseriesPoint.time start points) :=
      (hasc.mem_atOrAbove _).mpr ⟨hrest, le_of_eq heq.symm⟩
    cases hlist : atOrAbove RawTimeseriesPoint.time (queryEnd finish)
        (atOrAbove RawTimeseriesPoint.time start points) with
    | nil =>
        rw [hlist] at hmem
        cases hmem
    | cons first rest =>
        rw [hlist] at hmem
        have hasc' := hasc.atOrAbove RawTimeseriesPoint.time (queryEnd finish)
        have hfirst : queryEnd finish ≤ first.time :=
          ((hasc.mem_atOrAbove _).mp (by rw [hlist]; exact List.mem_cons_self ..)).2
        rw [hlist] at hasc'
        rcases List.mem_cons.mp hmem with rfl | hin
        · exact List.mem_cons_self ..
        · have hgt := ((ascending_cons _).mp hasc').1 q hin
          rw [heq] at hgt
          exact absurd hgt (not_lt.mpr hfirst)

/-- The last point in front of the range is returned, and no other one. -/
theorem mem_contextSlice_front (h : Ascending RawTimeseriesPoint.time points)
    {q : RawTimeseriesPoint} (hlt : q.time < start) :
    q ∈ contextSlice start finish points ↔
      q ∈ points ∧ ∀ other ∈ points, other.time < start → other.time ≤ q.time := by
  have hlast : q ∈ lastN 1 (below RawTimeseriesPoint.time start points) ↔
      q ∈ points ∧ ∀ other ∈ points, other.time < start → other.time ≤ q.time := by
    rw [lastN_one, Option.mem_toList]
    constructor
    · intro hget
      exact ⟨((h.mem_below _).mp (List.mem_of_getLast? hget)).1, fun other hother hlt' =>
        last_below_greatest h hget hother hlt'⟩
    · rintro ⟨hq, hmax⟩
      have hmem : q ∈ below RawTimeseriesPoint.time start points := (h.mem_below _).mpr ⟨hq, hlt⟩
      cases hget : (below RawTimeseriesPoint.time start points).getLast? with
      | none =>
          rw [List.getLast?_eq_none_iff.mp hget] at hmem
          cases hmem
      | some last =>
          obtain ⟨hl1, hl2⟩ := (h.mem_below _).mp (List.mem_of_getLast? hget)
          rw [h.eq_of_key _ hl1 hq
            (le_antisymm (hmax last hl1 hl2) (last_below_greatest h hget hq hlt))]
  rw [← hlast]
  constructor
  · intro hmem
    unfold contextSlice sliceOf at hmem
    have hbehind : ∀ x ∈ atOrAbove RawTimeseriesPoint.time start points, start ≤ x.time :=
      fun x hx => ((h.mem_atOrAbove _).mp hx).2
    rcases List.mem_append.mp hmem with hfront | hback
    · rcases List.mem_append.mp hfront with hpre | hrange
      · exact hpre
      · exact absurd hlt (not_lt.mpr (hbehind q ((List.takeWhile_sublist _).subset hrange)))
    · exact absurd hlt (not_lt.mpr
        (hbehind q ((List.dropWhile_sublist _).subset (List.mem_of_mem_take hback))))
  · intro hmem
    exact List.mem_append_left _ (List.mem_append_left _ hmem)

/-- Behind the range the first point is returned. -/
theorem exists_contextSlice_back (h : Ascending RawTimeseriesPoint.time points)
    (hle : start ≤ finish) {q : RawTimeseriesPoint} (hq : q ∈ points) (hlt : finish < q.time) :
    ∃ next ∈ contextSlice start finish points, finish ≤ next.time := by
  have hasc := h.atOrAbove RawTimeseriesPoint.time start
  have hge : queryEnd finish ≤ q.time := by
    unfold queryEnd
    split
    · exact le_of_lt hlt
    · exact Int.add_one_le_of_lt hlt
  have hmem : q ∈ atOrAbove RawTimeseriesPoint.time (queryEnd finish)
      (atOrAbove RawTimeseriesPoint.time start points) :=
    (hasc.mem_atOrAbove _).mpr
      ⟨(h.mem_atOrAbove _).mpr ⟨hq, le_of_lt (lt_of_le_of_lt hle hlt)⟩, hge⟩
  cases hlist : atOrAbove RawTimeseriesPoint.time (queryEnd finish)
      (atOrAbove RawTimeseriesPoint.time start points) with
  | nil =>
      rw [hlist] at hmem
      cases hmem
  | cons next rest =>
      have hnext := (hasc.mem_atOrAbove (t := queryEnd finish) (x := next) _).mp
        (by rw [hlist]; exact List.mem_cons_self ..)
      refine ⟨next, List.mem_append_right _ ?_, le_trans (le_queryEnd finish) hnext.2⟩
      rw [hlist]
      exact List.mem_cons_self ..

end ContextSlice

/-! ## Where slices of the sources are enough -/

/-- A source has a point at `t`, and every source has points on both sides. -/
def Defined (config : RuntimeDerivedSeriesConfig) (points : SequenceId → List RawTimeseriesPoint)
    (t : Timestamp) : Prop :=
  (∃ s ∈ sourcesFor config, ∃ q ∈ points s, q.time = t) ∧
    ∀ s ∈ sourcesFor config, Spans RawTimeseriesPoint.time (points s) t

/-- **The predecessors are enough.**  Where the formula has a value in front of the
    queried range, at or behind the last point one source has in front of its own
    range, no source has a later point in front of the queried range. -/
def PatchCovers (config : RuntimeDerivedSeriesConfig)
    (points : SequenceId → List RawTimeseriesPoint) (queried affected : Timestamp) : Prop :=
  ∀ t v, Derives config points t v → t < queried →
    (∃ s ∈ sourcesFor config, ∀ q ∈ points s, q.time < affected → q.time ≤ t) →
      ∀ s ∈ sourcesFor config, ∀ q ∈ points s, q.time < queried → q.time ≤ t

/-- The points in the live window. -/
def livePart (start finish : Timestamp) (points : List RawTimeseriesPoint) :
    List RawTimeseriesPoint :=
  points.filter fun q => decide (start ≤ q.time) && decide (q.time < finish)

/-- **The live window is enough.**  Where the formula has a value inside it, it is
    defined by the points inside it. -/
def LiveSuffices (config : RuntimeDerivedSeriesConfig)
    (points : SequenceId → List RawTimeseriesPoint) (start finish : Timestamp) : Prop :=
  ∀ t v, start ≤ t → t < finish → Derives config points t v →
    Defined config (fun s => livePart start finish (points s)) t

/-- All values are numbers. -/
def AllNumeric (points : List RawTimeseriesPoint) : Prop :=
  ∀ q ∈ points, (numericValue q.value).isSome = true

section Numeric

variable {config : RuntimeDerivedSeriesConfig} {points slices : SequenceId → List RawTimeseriesPoint}
  {t : Timestamp} {v : ℚ}

theorem exists_numericPoint {xs : List RawTimeseriesPoint} (h : AllNumeric xs)
    {q : RawTimeseriesPoint} (hq : q ∈ xs) : ∃ x ∈ numericPoints xs, x.time = q.time := by
  obtain ⟨value, hvalue⟩ := Option.isSome_iff_exists.mp (h q hq)
  exact ⟨⟨q.time, value⟩, List.mem_filterMap.mpr ⟨q, hq, by rw [hvalue]; rfl⟩, rfl⟩

theorem exists_rawPoint {xs : List RawTimeseriesPoint} {x : NumericPoint}
    (h : x ∈ numericPoints xs) : ∃ q ∈ xs, q.time = x.time := by
  obtain ⟨q, hq, hx⟩ := List.mem_filterMap.mp h
  obtain ⟨value, -, rfl⟩ := Option.map_eq_some_iff.mp hx
  exact ⟨q, hq, rfl⟩

/-- A time lies between two points when it lies between two numbers. -/
theorem spans_numeric {xs : List RawTimeseriesPoint} (h : AllNumeric xs) (t : Timestamp) :
    Spans NumericPoint.time (numericPoints xs) t ↔ Spans RawTimeseriesPoint.time xs t := by
  constructor
  · rintro ⟨⟨x, hx, hle⟩, ⟨y, hy, hge⟩⟩
    obtain ⟨q, hq, heq⟩ := exists_rawPoint hx
    obtain ⟨r, hr, heq'⟩ := exists_rawPoint hy
    exact ⟨⟨q, hq, by rw [heq]; exact hle⟩, ⟨r, hr, by rw [heq']; exact hge⟩⟩
  · rintro ⟨⟨x, hx, hle⟩, ⟨y, hy, hge⟩⟩
    obtain ⟨q, hq, heq⟩ := exists_numericPoint h hx
    obtain ⟨r, hr, heq'⟩ := exists_numericPoint h hy
    exact ⟨⟨q, hq, by rw [heq]; exact hle⟩, ⟨r, hr, by rw [heq']; exact hge⟩⟩

/-- A formula derives a value only where it is defined. -/
theorem defined_of_derives (hasc : ∀ s, Ascending RawTimeseriesPoint.time (points s))
    (hnum : ∀ s ∈ sourcesFor config, AllNumeric (points s)) (h : Derives config points t v) :
    Defined config points t := by
  obtain ⟨s, hs, x, hx, ht⟩ := h.1
  obtain ⟨q, hq, heq⟩ := exists_rawPoint hx
  exact ⟨⟨s, hs, q, hq, heq.trans ht⟩, fun s' hs' =>
    (spans_numeric (hnum s' hs') t).mp (spans_of_derives hasc h hs')⟩

/-- Slices on which the formula is still defined derive the same. -/
theorem derives_slices (hasc : ∀ s, Ascending RawTimeseriesPoint.time (points s))
    (hnum : ∀ s ∈ sourcesFor config, AllNumeric (points s))
    (hslice : ∀ s, slices s <:+: points s)
    (hdefined : Derives config points t v → Defined config slices t) :
    Derives config slices t v ↔ Derives config points t v := by
  refine ⟨fun h => h.of_slices hasc hslice, fun h => ?_⟩
  have hnum' : ∀ s ∈ sourcesFor config, AllNumeric (slices s) := fun s hs q hq =>
    hnum s hs q ((hslice s).subset hq)
  obtain ⟨⟨s, hs, q, hq, ht⟩, hspans⟩ := hdefined h
  refine h.slice hasc hslice ?_ fun s' hs' => (spans_numeric (hnum' s' hs') t).mpr (hspans s' hs')
  obtain ⟨x, hx, heq⟩ := exists_numericPoint (hnum' s hs) hq
  exact ⟨s, hs, x, hx, heq.trans ht⟩

end Numeric

theorem livePart_slice {points : List RawTimeseriesPoint}
    (h : Ascending RawTimeseriesPoint.time points) (start finish : Timestamp) :
    livePart start finish points <:+: points := by
  unfold livePart
  rw [← sliceOf_range h]
  exact sliceOf_within ..

/-- **Inside the patch the query is enough** if the predecessors are. -/
theorem defined_contextSlice {config : RuntimeDerivedSeriesConfig}
    {points : SequenceId → List RawTimeseriesPoint}
    (hasc : ∀ s, Ascending RawTimeseriesPoint.time (points s)) {queried affected finish : Timestamp}
    {t : Timestamp} {v : ℚ} (hcover : PatchCovers config points queried affected)
    (hle : queried ≤ finish) (ht : t ≤ finish)
    (hpatch : t < queried →
      ∃ s ∈ sourcesFor config, ∀ q ∈ points s, q.time < affected → q.time ≤ t)
    (hnum : ∀ s ∈ sourcesFor config, AllNumeric (points s)) (h : Derives config points t v) :
    Defined config (fun s => contextSlice queried finish (points s)) t := by
  obtain ⟨⟨s, hs, q, hq, hqt⟩, hspans⟩ := defined_of_derives hasc hnum h
  -- behind the start of the query everything up to its end is returned
  have hback : ∀ s' ∈ sourcesFor config,
      ∃ x ∈ contextSlice queried finish (points s'), t ≤ x.time := by
    intro s' hs'
    obtain ⟨-, y, hy, hge⟩ := hspans s' hs'
    rcases lt_or_ge finish y.time with hgt | hle'
    · obtain ⟨next, hnext, hnle⟩ := exists_contextSlice_back (hasc s') hle hy hgt
      exact ⟨next, hnext, le_trans ht hnle⟩
    · rcases lt_or_ge y.time queried with hlt | hge'
      · -- the predecessor is not in front of `y`
        have hmem : y ∈ contextSlice queried finish _ ↔ _ :=
          mem_contextSlice_front (hasc s') hlt
        have hcov := hcover t v h (lt_of_le_of_lt hge hlt)
          (hpatch (lt_of_le_of_lt hge hlt)) s' hs'
        exact ⟨y, hmem.mpr ⟨hy, fun other hother hlt' => le_trans (hcov other hother hlt') hge⟩,
          hge⟩
      · exact ⟨y, mem_contextSlice_range (hasc s') hy hge' hle', hge⟩
  have hfront : ∀ s' ∈ sourcesFor config,
      ∃ x ∈ contextSlice queried finish (points s'), x.time ≤ t := by
    intro s' hs'
    obtain ⟨⟨x, hx, hxle⟩, -⟩ := hspans s' hs'
    rcases lt_or_ge x.time queried with hlt | hge
    · -- the last point in front of the query
      obtain ⟨last, hlast⟩ : ∃ last, (below RawTimeseriesPoint.time queried (points s')).getLast? =
          some last := by
        refine Option.isSome_iff_exists.mp ?_
        rw [Option.isSome_iff_ne_none, Ne, List.getLast?_eq_none_iff]
        exact List.ne_nil_of_mem (((hasc s').mem_below _).mpr ⟨hx, hlt⟩)
      have hmem : last ∈ contextSlice queried finish (points s') := by
        unfold contextSlice sliceOf
        rw [lastN_one, hlast]
        exact List.mem_append_left _ (List.mem_append_left _ (List.mem_singleton_self last))
      obtain ⟨hl1, hl2⟩ := ((hasc s').mem_below _).mp (List.mem_of_getLast? hlast)
      refine ⟨last, hmem, ?_⟩
      rcases lt_or_ge t queried with htlt | htge
      · exact hcover t v h htlt (hpatch htlt) s' hs' last hl1 hl2
      · exact le_of_lt (lt_of_lt_of_le hl2 htge)
    · exact ⟨x, mem_contextSlice_range (hasc s') hx hge (le_trans hxle ht), hxle⟩
  refine ⟨⟨s, hs, q, ?_, hqt⟩, fun s' hs' => ⟨hfront s' hs', hback s' hs'⟩⟩
  rcases lt_or_ge q.time queried with hlt | hge
  · refine (mem_contextSlice_front (hasc s) hlt).mpr ⟨hq, ?_⟩
    rw [hqt] at hlt ⊢
    exact hcover t v h hlt (hpatch hlt) s hs
  · exact mem_contextSlice_range (hasc s) hq hge (by rw [hqt]; exact ht)

/-! ## Writing a derived sequence -/

/-- An id that a stored point may carry. -/
def Storable (s : SequenceId) : Prop := s ≠ "" ∧ s.utf8ByteSize ≤ kMaxSequenceIdBytes

instance (s : SequenceId) : Decidable (Storable s) :=
  inferInstanceAs (Decidable (s ≠ "" ∧ s.utf8ByteSize ≤ kMaxSequenceIdBytes))

section Write

variable {p : ProjectId} {config : RuntimeDerivedSeriesConfig} {data : TimeseriesBatch}
  {service : WindowService}

/-- The points of an item. -/
def DerivedPoints (p : ProjectId) (config : RuntimeDerivedSeriesConfig)
    (points : List RawTimeseriesPoint) : Prop :=
  ∀ q ∈ points, ∃ t v, q = derivedPoint p config t v

/-- A derived point is valid when its id can be stored. -/
theorem derivedPoint_valid (p : ProjectId) (config : RuntimeDerivedSeriesConfig) (t : Timestamp)
    (v : ℚ) :
    validateRawPoint (effectiveProject p) (derivedPoint p config t v) = none ↔
      Storable config.derivedSequenceId := by
  rw [validateRawPoint_eq_none]
  have hproject : p = "" ∨ p = effectiveProject p := by
    unfold effectiveProject
    split
    · rename_i hempty
      exact Or.inl (by simpa [String.isEmpty_iff] using hempty)
    · exact Or.inr rfl
  constructor
  · rintro ⟨-, hpoint⟩
    exact validatePoint_sequenceId hpoint
  · rintro ⟨hne, hsize⟩
    refine ⟨hproject, ?_⟩
    have hempty : ¬ (derivedPoint p config t v).sequenceId.isEmpty = true :=
      fun h => hne (String.isEmpty_iff.mp h)
    have hlong : ¬ kMaxSequenceIdBytes < (derivedPoint p config t v).sequenceId.utf8ByteSize :=
      not_lt.mpr hsize
    rw [validatePoint, if_neg hempty, if_neg hlong]
    rfl

/-- Derived points pass the checks when there are none, or the id can be stored. -/
theorem validateDerived_points (hp : DerivedPoints p config data.points)
    (extra : RawTimeseriesPoint → Option String) (hextra : ∀ q ∈ data.points, extra q = none) :
    validateDerivedPoints p config.derivedSequenceId extra data = none ↔
      data.points = [] ∨ Storable config.derivedSequenceId := by
  unfold validateDerivedPoints
  rw [List.findSome?_eq_none_iff]
  constructor
  · intro h
    cases hpoints : data.points with
    | nil => exact Or.inl rfl
    | cons q rest =>
        right
        have hq : q ∈ data.points := by
          rw [hpoints]
          exact List.mem_cons_self ..
        obtain ⟨t, v, hqd⟩ := hp q hq
        have hone := h q hq
        split at hone
        · cases hone
        · rename_i hvalid
          rw [hqd] at hvalid
          exact (derivedPoint_valid p config t v).mp hvalid
  · rintro (hnil | hstore) q hq
    · rw [hnil] at hq
      cases hq
    · obtain ⟨t, v, hqd⟩ := hp q hq
      have hvalid : validateRawPoint (effectiveProject p) q = none := by
        rw [hqd]
        exact (derivedPoint_valid p config t v).mpr hstore
      have hid : ¬ (q.sequenceId != config.derivedSequenceId) = true := by
        rw [hqd]
        simp [derivedPoint]
      simp only [hvalid, if_neg hid]
      exact hextra q hq

theorem batchContext_free (p : ProjectId) (points : List RawTimeseriesPoint) :
    validateBatchContext (effectiveProject p) { points := points } = none :=
  (validateBatchContext_eq_none (effectiveProject_ne_empty p)).mpr (Or.inl rfl)

/-- What a patch with the points of an item leaves. -/
theorem patch_retained (hv : AllValid service.sequenceWindows)
    (hid : config.derivedSequenceId ≠ "") {points : List RawTimeseriesPoint}
    (hp : DerivedPoints p config points) (hasc : Ascending RawTimeseriesPoint.time points)
    {start finish : Timestamp} (hle : start ≤ finish)
    (hin : ∀ q ∈ points, start ≤ q.time ∧ q.time ≤ finish)
    (hold : ∀ q ∈ retained p config.derivedSequenceId service, q.time ≤ finish) :
    let after := retained p config.derivedSequenceId
      (patchDerivedSequence p config.derivedSequenceId start finish { points := points } service).1
    (Storable config.derivedSequenceId → ∀ q, q ∈ after ↔
      q ∈ points ∨ q ∈ retained p config.derivedSequenceId service ∧ q.time < start) ∧
    (retained p config.derivedSequenceId service = [] →
      ¬ Storable config.derivedSequenceId → after = []) := by
  intro after
  have hempty : ¬ config.derivedSequenceId.isEmpty = true := by
    simpa [String.isEmpty_iff] using hid
  -- of the checks of a patch only that of the points can fail
  have hvalidate : validatePatch p config.derivedSequenceId start finish { points := points } =
      validateDerivedPoints p config.derivedSequenceId
        (fun point => if point.time < start || finish < point.time then
          some "derived patch contains a point outside its affected range" else none)
        { points := points } := by
    simp only [validatePatch, if_neg hempty, if_neg (not_lt.mpr hle), batchContext_free]
  have hiff := @validateDerived_points p config { points := points } hp
    (fun point => if point.time < start || finish < point.time then
      some "derived patch contains a point outside its affected range" else none)
    (fun q hq => by
      obtain ⟨h1, h2⟩ := hin q hq
      simp [not_lt.mpr h1, not_lt.mpr h2])
  rw [← hvalidate] at hiff
  have hcontent : ∀ q, validatePatch p config.derivedSequenceId start finish
      { points := points } = none → (q ∈ after ↔
        q ∈ points ∨ q ∈ retained p config.derivedSequenceId service ∧ q.time < start) := by
    intro q hnone
    have hafter : after = assignAll RawTimeseriesPoint.time points
        ((retained p config.derivedSequenceId service).filter (outsidePatch start finish)) := by
      show retained p _ (patchDerivedSequence ..).1 = _
      unfold patchDerivedSequence
      rw [hnone]
      have hwritten := writeSequence_contentOf hv p config.derivedSequenceId
        (fun w => SeqWindow.patchSequence w start finish { points := points })
        (fun old => assignAll RawTimeseriesPoint.time points
          (old.filter (outsidePatch start finish)))
        (fun w hw _ => patchSequence_content hw hle { points := points })
        (scopedSequenceKey p config.derivedSequenceId)
      rw [if_pos rfl] at hwritten
      exact hwritten
    have hbase := ascending_retained hv p config.derivedSequenceId
    rw [hafter, mem_assignAll_ascending _ (hbase.filter _ _) hasc, List.mem_filter]
    -- no old point lies behind the patch: outside is in front
    have houtside : ∀ r ∈ retained p config.derivedSequenceId service,
        (outsidePatch start finish r = true ↔ r.time < start) := by
      intro r hr
      unfold outsidePatch
      simp [not_lt.mpr (hold r hr)]
    constructor
    · rintro (hnew | ⟨⟨hr, hout⟩, -⟩)
      · exact Or.inl hnew
      · exact Or.inr ⟨hr, (houtside q hr).mp hout⟩
    · rintro (hnew | ⟨hr, hlt⟩)
      · exact Or.inl hnew
      · refine Or.inr ⟨⟨hr, (houtside q hr).mpr hlt⟩, fun x hx heq => ?_⟩
        rw [← heq] at hlt
        exact absurd hlt (not_lt.mpr (hin x hx).1)
  refine ⟨fun hstore q => hcontent q (hiff.mpr (Or.inr hstore)), fun hnil hno => ?_⟩
  by_cases hnone : validatePatch p config.derivedSequenceId start finish
      { points := points } = none
  · refine List.eq_nil_iff_forall_not_mem.mpr fun q hq => ?_
    have hpoints : points = [] := (hiff.mp hnone).resolve_right hno
    rcases (hcontent q hnone).mp hq with hnew | ⟨hr, -⟩
    · rw [hpoints] at hnew
      cases hnew
    · rw [hnil] at hr
      cases hr
  · obtain ⟨error, herror⟩ := Option.ne_none_iff_exists'.mp hnone
    show retained p _ (patchDerivedSequence ..).1 = _
    unfold patchDerivedSequence
    rw [herror]
    exact hnil

/-- What a replacement with the points of an item leaves. -/
theorem replace_retained (hv : AllValid service.sequenceWindows)
    (hid : config.derivedSequenceId ≠ "") {points : List RawTimeseriesPoint}
    (hp : DerivedPoints p config points) (hasc : Ascending RawTimeseriesPoint.time points)
    (hlive : ∀ watermark, service.watermarks.find (effectiveProject p) = some watermark →
      ∀ q ∈ points, windowStart watermark (windowSize p service) ≤ q.time) :
    let after := retained p config.derivedSequenceId
      (replaceDerivedSequence p config.derivedSequenceId { points := points } service).1
    (points = [] ∨ Storable config.derivedSequenceId → after = points) ∧
    (retained p config.derivedSequenceId service = [] →
      ¬ Storable config.derivedSequenceId → after = []) := by
  intro after
  have hempty : ¬ config.derivedSequenceId.isEmpty = true := by
    simpa [String.isEmpty_iff] using hid
  have hvalidate : validateReplace p config.derivedSequenceId { points := points } =
      validateDerivedPoints p config.derivedSequenceId (fun _ => none) { points := points } := by
    simp only [validateReplace, if_neg hempty, batchContext_free]
  have hiff := @validateDerived_points p config { points := points } hp (fun _ => none)
    fun _ _ => rfl
  rw [← hvalidate] at hiff
  have hcontent : validateReplace p config.derivedSequenceId { points := points } = none →
      after = points := by
    intro hnone
    show retained p _ (replaceDerivedSequence ..).1 = _
    unfold replaceDerivedSequence
    rw [hnone]
    have hwritten := writeSequence_contentOf hv p config.derivedSequenceId
      (fun w => SeqWindow.replaceSequence w { points := points })
      (fun _ => assignAll RawTimeseriesPoint.time points [])
      (fun w _ _ => replaceSequence_content w { points := points })
      (scopedSequenceKey p config.derivedSequenceId)
    have hvalid := writeSequence_allValid hv p config.derivedSequenceId
      (fun w => SeqWindow.replaceSequence w { points := points })
      fun w _ _ => replaceSequence_valid w { points := points }
    rw [if_pos rfl, hasc.assignAll_empty] at hwritten
    simp only
    cases hw : service.watermarks.find (effectiveProject p) with
    | none => exact hwritten
    | some watermark =>
        -- the prune behind the write finds nothing to evict here
        refine (pruneExpiredPoints_contentOf hvalid _ _ _).trans ?_
        rw [hwritten]
        split
        · exact List.filter_eq_self.mpr fun q hq => decide_eq_true (hlive watermark hw q hq)
        · rfl
  refine ⟨fun hstore => hcontent (hiff.mpr hstore), fun hnil hno => ?_⟩
  by_cases hnone : validateReplace p config.derivedSequenceId { points := points } = none
  · rw [hcontent hnone]
    exact (hiff.mp hnone).resolve_right hno
  · obtain ⟨error, herror⟩ := Option.ne_none_iff_exists'.mp hnone
    show retained p _ (replaceDerivedSequence ..).1 = _
    unfold replaceDerivedSequence
    rw [herror]
    exact hnil

end Write

/-! ## The patch range -/

/-- The least of a start value and the values present, against a bound. -/
theorem foldl_min_le {ι α : Type} [LinearOrder α] (value : ι → Option α) (bound : α)
    (ids : List ι) (start : α) :
    ids.foldl (fun earliest s => (value s).elim earliest fun v => min earliest v) start ≤ bound ↔
      start ≤ bound ∨ ∃ s ∈ ids, ∃ v, value s = some v ∧ v ≤ bound := by
  induction ids generalizing start with
  | nil => exact ⟨Or.inl, fun h => h.resolve_right fun ⟨_, hs, _⟩ => by cases hs⟩
  | cons s ids ih =>
      rw [List.foldl_cons, ih]
      cases hget : value s with
      | none =>
          refine or_congr_right ⟨fun ⟨u, hu, h⟩ => ⟨u, List.mem_cons_of_mem _ hu, h⟩, ?_⟩
          rintro ⟨u, hu, v, hv, hle⟩
          rcases List.mem_cons.mp hu with rfl | hu'
          · rw [hget] at hv
            cases hv
          · exact ⟨u, hu', v, hv, hle⟩
      | some v =>
          rw [Option.elim_some, min_le_iff, or_assoc]
          refine or_congr_right ⟨?_, ?_⟩
          · rintro (hle | ⟨u, hu, h⟩)
            · exact ⟨s, List.mem_cons_self .., v, hget, hle⟩
            · exact ⟨u, List.mem_cons_of_mem _ hu, h⟩
          · rintro ⟨u, hu, v', hv', hle⟩
            rcases List.mem_cons.mp hu with rfl | hu'
            · rw [hget] at hv'
              rw [Option.some.inj hv']
              exact Or.inl hle
            · exact Or.inr ⟨u, hu', v', hv', hle⟩

/-- The time of the last point in front of a range. -/
def lastBefore (start : Timestamp) (points : List RawTimeseriesPoint) : Option Timestamp :=
  (below RawTimeseriesPoint.time start points).getLast?.map RawTimeseriesPoint.time

/-- The last point in front of a time, compared with another time. -/
theorem lastBefore_le {points : List RawTimeseriesPoint}
    (h : Ascending RawTimeseriesPoint.time points) (start t : Timestamp) :
    (∃ last, lastBefore start points = some last ∧ last ≤ t) ↔
      (∃ q ∈ points, q.time < start) ∧ ∀ q ∈ points, q.time < start → q.time ≤ t := by
  have hbelow := h.below RawTimeseriesPoint.time start
  constructor
  · rintro ⟨last, hlast, hle⟩
    obtain ⟨pred, hpred, rfl⟩ := Option.map_eq_some_iff.mp hlast
    have hmem := (h.mem_below _).mp (List.mem_of_getLast? hpred)
    refine ⟨⟨pred, hmem⟩, fun q hq hlt => ?_⟩
    obtain ⟨front, heq⟩ := List.getLast?_eq_some_iff.mp hpred
    have hq' : q ∈ below RawTimeseriesPoint.time start points := (h.mem_below _).mpr ⟨hq, hlt⟩
    rw [heq] at hq' hbelow
    rcases List.mem_append.mp hq' with hfront | hself
    · exact le_trans (le_of_lt (((ascending_append _).mp hbelow).2.2 q hfront pred
        (List.mem_singleton_self pred))) hle
    · rw [List.mem_singleton.mp hself]
      exact hle
  · rintro ⟨⟨q, hq, hlt⟩, hall⟩
    obtain ⟨pred, hpred⟩ : ∃ pred, (below RawTimeseriesPoint.time start points).getLast? =
        some pred := by
      refine Option.isSome_iff_exists.mp ?_
      rw [Option.isSome_iff_ne_none, Ne, List.getLast?_eq_none_iff]
      exact List.ne_nil_of_mem ((h.mem_below _).mpr ⟨hq, hlt⟩)
    have hmem := (h.mem_below _).mp (List.mem_of_getLast? hpred)
    exact ⟨pred.time, Option.map_eq_some_iff.mpr ⟨pred, hpred, rfl⟩, hall pred hmem.1 hmem.2⟩

/-- A patch starts at the earliest of the last points in front. -/
theorem patchStartOf_eq (data : WindowData) (start : Timestamp) (ids : List SequenceId) :
    patchStartOf data start ids =
      ids.foldl (fun earliest s =>
        (lastBefore start ((data.sequenceValues.find s).getD [])).elim earliest
          fun last => min earliest last) start := by
  refine congrArg (fun f => List.foldl f start ids) ?_
  funext earliest s
  rw [lastBefore]
  cases (below RawTimeseriesPoint.time start ((data.sequenceValues.find s).getD [])).getLast? with
  | none => rfl
  | some pred => rfl

/-- The patch starts with the earliest of the last points in front of the range. -/
theorem patchStartOf_le {data : WindowData}
    (hasc : ∀ s, Ascending RawTimeseriesPoint.time ((data.sequenceValues.find s).getD []))
    (start : Timestamp) (ids : List SequenceId) (t : Timestamp) :
    patchStartOf data start ids ≤ t ↔ start ≤ t ∨ ∃ s ∈ ids,
      (∃ q ∈ (data.sequenceValues.find s).getD [], q.time < start) ∧
        ∀ q ∈ (data.sequenceValues.find s).getD [], q.time < start → q.time ≤ t := by
  rw [patchStartOf_eq, foldl_min_le]
  exact or_congr_right
    (exists_congr fun s => and_congr_right fun _ => lastBefore_le (hasc s) start t)

/-- The query returns the last point in front of the range of every formula it serves. -/
theorem front_contextSlice {points : List RawTimeseriesPoint}
    (h : Ascending RawTimeseriesPoint.time points) {queried affected finish t : Timestamp}
    (hle : queried ≤ affected) (hfin : affected ≤ finish) :
    ((∃ q ∈ contextSlice queried finish points, q.time < affected) ∧
        ∀ q ∈ contextSlice queried finish points, q.time < affected → q.time ≤ t) ↔
      (∃ q ∈ points, q.time < affected) ∧ ∀ q ∈ points, q.time < affected → q.time ≤ t := by
  have hsub := (contextSlice_slice queried finish points).subset
  -- a later returned point for every point in front of the range
  have hlater : ∀ q ∈ points, q.time < affected →
      ∃ r ∈ contextSlice queried finish points, r.time < affected ∧ q.time ≤ r.time := by
    intro q hq hlt
    rcases lt_or_ge q.time queried with hfront | hback
    · obtain ⟨last, hlast⟩ : ∃ last, (below RawTimeseriesPoint.time queried points).getLast? =
          some last := by
        refine Option.isSome_iff_exists.mp ?_
        rw [Option.isSome_iff_ne_none, Ne, List.getLast?_eq_none_iff]
        exact List.ne_nil_of_mem ((h.mem_below _).mpr ⟨hq, hfront⟩)
      have hmem : last ∈ contextSlice queried finish points := by
        unfold contextSlice sliceOf
        rw [lastN_one, hlast]
        exact List.mem_append_left _ (List.mem_append_left _ (List.mem_singleton_self last))
      obtain ⟨-, hlt'⟩ := (h.mem_below _).mp (List.mem_of_getLast? hlast)
      exact ⟨last, hmem, lt_of_lt_of_le hlt' hle,
        ((mem_contextSlice_front h hlt').mp hmem).2 q hq hfront⟩
    · exact ⟨q, mem_contextSlice_range h hq hback (le_trans (le_of_lt hlt) hfin), hlt, le_refl _⟩
  constructor
  · rintro ⟨⟨q, hq, hlt⟩, hall⟩
    refine ⟨⟨q, hsub hq, hlt⟩, fun r hr hrlt => ?_⟩
    obtain ⟨x, hx, hxlt, hxle⟩ := hlater r hr hrlt
    exact le_trans hxle (hall x hx hxlt)
  · rintro ⟨⟨q, hq, hlt⟩, hall⟩
    obtain ⟨x, hx, hxlt, -⟩ := hlater q hq hlt
    exact ⟨⟨x, hx, hxlt⟩, fun r hr hrlt => hall r (hsub hr) hrlt⟩

/-! ## One derived sequence -/

/-- The sequence holds what the formula derives from the points, or nothing if its
    id cannot be stored. -/
def DerivedFrom (p : ProjectId) (config : RuntimeDerivedSeriesConfig)
    (points : SequenceId → List RawTimeseriesPoint) (derived : List RawTimeseriesPoint) : Prop :=
  (Storable config.derivedSequenceId → ∀ q, q ∈ derived ↔
    ∃ t v, Derives config points t v ∧ q = derivedPoint p config t v) ∧
  (¬ Storable config.derivedSequenceId → derived = [])

/-- A value derived depends on the sources alone. -/
theorem derives_congr {config : RuntimeDerivedSeriesConfig}
    {points points' : SequenceId → List RawTimeseriesPoint}
    (h : ∀ s ∈ sourcesFor config, points s = points' s) {t : Timestamp} {v : ℚ} :
    Derives config points t v ↔ Derives config points' t v := by
  have hvalue : formulaValue (sourceValues points t) config.formula =
      formulaValue (sourceValues points' t) config.formula :=
    formulaValue_congr fun s hs => by rw [sourceValues, sourceValues, h s hs]
  unfold Derives
  rw [hvalue]
  refine and_congr_left fun _ => exists_congr fun s => and_congr_right fun hs => ?_
  rw [h s hs]

/-- Whether a value is defined depends on the sources alone. -/
theorem defined_congr {config : RuntimeDerivedSeriesConfig}
    {points points' : SequenceId → List RawTimeseriesPoint}
    (h : ∀ s ∈ sourcesFor config, points s = points' s) {t : Timestamp} :
    Defined config points t ↔ Defined config points' t := by
  unfold Defined
  refine and_congr (exists_congr fun s => and_congr_right fun hs => by rw [h s hs]) ?_
  exact forall_congr' fun s => forall_congr' fun hs => by rw [h s hs]

/-- What an appended batch changes for the sources of a formula: new points, all
    in its range and one at the end of it, and evictions only if the range reaches
    back to the window start. -/
structure Appended (config : RuntimeDerivedSeriesConfig)
    (old new : SequenceId → List RawTimeseriesPoint) (start : Timestamp)
    (affected finish : Timestamp) : Prop where
  old_ascending : ∀ s, Ascending RawTimeseriesPoint.time (old s)
  new_ascending : ∀ s, Ascending RawTimeseriesPoint.time (new s)
  old_numeric : ∀ s ∈ sourcesFor config, AllNumeric (old s)
  new_numeric : ∀ s ∈ sourcesFor config, AllNumeric (new s)
  live : ∀ s ∈ sourcesFor config, ∀ q ∈ new s, start ≤ q.time
  last : ∃ s ∈ sourcesFor config,
    (∀ q ∈ old s, q.time ≤ finish) ∧ ∀ q ∈ new s, q.time ≤ finish
  kept : ∀ t, start ≤ t → t < affected → ∀ s ∈ sourcesFor config,
    ∃ added, new s = old s ++ added ∧ ∀ q ∈ added, affected ≤ q.time

section Appended

variable {config : RuntimeDerivedSeriesConfig} {old new : SequenceId → List RawTimeseriesPoint}
  {start affected finish t : Timestamp} {v : ℚ}

/-- Nothing is derived behind the range. -/
theorem Appended.le_finish (h : Appended config old new start affected finish) :
    (Derives config old t v → t ≤ finish) ∧ (Derives config new t v → t ≤ finish) := by
  obtain ⟨s, hs, hold, hnew⟩ := h.last
  constructor
  · intro hd
    obtain ⟨-, hspans⟩ := defined_of_derives h.old_ascending h.old_numeric hd
    obtain ⟨-, q, hq, hle⟩ := hspans s hs
    exact le_trans hle (hold q hq)
  · intro hd
    obtain ⟨-, hspans⟩ := defined_of_derives h.new_ascending h.new_numeric hd
    obtain ⟨-, q, hq, hle⟩ := hspans s hs
    exact le_trans hle (hnew q hq)

/-- In front of the patch nothing changes. -/
theorem Appended.front (h : Appended config old new start affected finish) (hstart : start ≤ t)
    (hlt : t < affected)
    (hpatch : ∀ s ∈ sourcesFor config, (∃ q ∈ new s, q.time < affected) →
      ∃ q ∈ new s, q.time < affected ∧ t < q.time) :
    Derives config old t v ↔ Derives config new t v := by
  have hkept := h.kept t hstart hlt
  have hfront : ∀ s ∈ sourcesFor config, ∀ q ∈ new s, q.time < affected → q ∈ old s := by
    intro s hs q hq hqlt
    obtain ⟨added, heq, hadded⟩ := hkept s hs
    rw [heq] at hq
    exact (List.mem_append.mp hq).resolve_right fun hin =>
      absurd hqlt (not_lt.mpr (hadded q hin))
  -- outside the sources the two may differ
  have hsame : ∀ s ∈ sourcesFor config,
      (fun s => if s ∈ sourcesFor config then old s else []) s = old s := fun s hs => if_pos hs
  rw [← derives_congr hsame]
  refine derives_slices h.new_ascending h.new_numeric (fun s => ?_) fun hd => ?_
  · by_cases hs : s ∈ sourcesFor config
    · obtain ⟨added, heq, -⟩ := hkept s hs
      simp only [if_pos hs]
      exact ⟨[], added, by rw [heq, List.nil_append]⟩
    · simp only [if_neg hs]
      exact List.nil_infix
  · rw [defined_congr hsame]
    obtain ⟨⟨s, hs, q, hq, hqt⟩, hspans⟩ := defined_of_derives h.new_ascending h.new_numeric hd
    refine ⟨⟨s, hs, q, hfront s hs q hq (by rw [hqt]; exact hlt), hqt⟩, fun s' hs' => ?_⟩
    obtain ⟨⟨x, hx, hxle⟩, -⟩ := hspans s' hs'
    have hxlt := lt_of_le_of_lt hxle hlt
    obtain ⟨y, hy, hylt, hgt⟩ := hpatch s' hs' ⟨x, hx, hxlt⟩
    exact ⟨⟨x, hfront s' hs' x hx hxlt, hxle⟩,
      ⟨y, hfront s' hs' y hy hylt, le_of_lt hgt⟩⟩

end Appended

/-- **One patch.**  If the derived sequence was what the old points derive, the kept
    part and the patch together are what the new points derive. -/
theorem Appended.patched {p : ProjectId} {config : RuntimeDerivedSeriesConfig}
    {old new : SequenceId → List RawTimeseriesPoint} {start affected finish : Timestamp}
    (h : Appended config old new start affected finish) {queried asked : Timestamp}
    (hqueried : queried ≤ affected) (hfinish : affected ≤ finish) (hasked : finish ≤ asked)
    (hcover : PatchCovers config new queried affected) {patchStart : Timestamp}
    (hpatch : ∀ t, patchStart ≤ t ↔ affected ≤ t ∨ ∃ s ∈ sourcesFor config,
      (∃ q ∈ new s, q.time < affected) ∧ ∀ q ∈ new s, q.time < affected → q.time ≤ t)
    {before points after : List RawTimeseriesPoint}
    (hbefore : ∀ q, q ∈ before ↔
      ∃ t v, Derives config old t v ∧ q = derivedPoint p config t v)
    (hpoints : ∀ q, q ∈ points ↔ ∃ t v, (patchStart ≤ t ∧ t ≤ finish) ∧
      Derives config (fun s => contextSlice queried asked (new s)) t v ∧
        q = derivedPoint p config t v)
    (hafter : ∀ q, q ∈ after ↔
      q ∈ points ∨ (q ∈ before ∧ start ≤ q.time) ∧ q.time < patchStart) (q : RawTimeseriesPoint) :
    q ∈ after ↔ ∃ t v, Derives config new t v ∧ q = derivedPoint p config t v := by
  have hslices : ∀ s, contextSlice queried asked (new s) <:+: new s :=
    fun s => contextSlice_slice ..
  have hfront : ∀ t, t < patchStart → t < affected ∧ ∀ s ∈ sourcesFor config,
      (∃ q ∈ new s, q.time < affected) → ∃ q ∈ new s, q.time < affected ∧ t < q.time := by
    intro t ht
    have hno := mt (hpatch t).mpr (not_le.mpr ht)
    obtain ⟨hlt, hnone⟩ := not_or.mp hno
    refine ⟨not_le.mp hlt, fun s hs hsome => ?_⟩
    by_contra hall
    refine hnone ⟨s, hs, hsome, fun q hq hqlt => ?_⟩
    by_contra hgt
    exact hall ⟨q, hq, hqlt, not_le.mp hgt⟩
  rw [hafter]
  constructor
  · rintro (hnew | ⟨⟨hold, hge⟩, hlt⟩)
    · obtain ⟨t, v, -, hd, rfl⟩ := (hpoints q).mp hnew
      exact ⟨t, v, hd.of_slices h.new_ascending hslices, rfl⟩
    · obtain ⟨t, v, hd, rfl⟩ := (hbefore q).mp hold
      obtain ⟨hlt', hall⟩ := hfront t hlt
      exact ⟨t, v, (h.front hge hlt' hall).mp hd, rfl⟩
  · rintro ⟨t, v, hd, rfl⟩
    have hdef := defined_of_derives h.new_ascending h.new_numeric hd
    obtain ⟨⟨s, hs, x, hx, hxt⟩, -⟩ := id hdef
    have hge : start ≤ t := hxt ▸ h.live s hs x hx
    have hle : t ≤ finish := h.le_finish.2 hd
    rcases lt_or_ge t patchStart with hlt | hin
    · obtain ⟨hlt', hall⟩ := hfront t hlt
      exact Or.inr ⟨⟨(hbefore _).mpr ⟨t, v, (h.front hge hlt' hall).mpr hd, rfl⟩, hge⟩, hlt⟩
    · left
      refine (hpoints _).mpr ⟨t, v, ⟨hin, hle⟩, ?_, rfl⟩
      refine (derives_slices h.new_ascending h.new_numeric hslices fun _ => ?_).mpr hd
      refine defined_contextSlice h.new_ascending hcover
        (le_trans hqueried (le_trans hfinish hasked)) (le_trans hle hasked) (fun htq => ?_)
        h.new_numeric hd
      rcases (hpatch t).mp hin with haff | ⟨s', hs', -, hall⟩
      · exact absurd (lt_of_lt_of_le htq hqueried) (not_lt.mpr haff)
      · exact ⟨s', hs', hall⟩

/-! ## The items of a refresh -/

/-- Every selected formula is refreshed incrementally. -/
def OnlyPatches (p : ProjectId) (registry : RuntimeConfigRegistry)
    (update : WindowUpdateResult) : Prop :=
  ∀ config ∈ allDerivedSeries p registry, selected (some update) config = true →
    (refreshRange p registry (some update) config).isSome = true

/-- The ranges of the formulas that share the incremental query. -/
def sharedRanges (p : ProjectId) (registry : RuntimeConfigRegistry)
    (update : WindowUpdateResult) : List IncrementalRange :=
  (incrementalConfigs p registry (some update) (allDerivedSeries p registry)).map Prod.snd

section Items

variable {capacity : Nat} {p : ProjectId} {registry : RuntimeConfigRegistry}
  {service : WindowService}

/-- A selected series with a range is patched. -/
theorem computeOne_patch {update : WindowUpdateResult}
    {incremental full : Option WindowQueryResult} {window : WindowQueryResult}
    {config : RuntimeDerivedSeriesConfig} {range : IncrementalRange}
    (hsel : selected (some update) config = true)
    (hrange : refreshRange p registry (some update) config = some range)
    (hwindow : incremental = some window) (hok : window.operation.code = .ok) :
    computeOne p registry (some update) incremental full config =
      computeFrom p registry (some range) window.data config := by
  have hen : config.enabled = true := (Bool.and_eq_true_iff.mp hsel).1
  simp [computeOne, hen, hsel, hrange, hwindow, hok]

/-- A series that is not selected is skipped. -/
theorem computeOne_skip {update : WindowUpdateResult}
    (incremental full : Option WindowQueryResult) {config : RuntimeDerivedSeriesConfig}
    (hsel : selected (some update) config = false) :
    (computeOne p registry (some update) incremental full config).skip = true := by
  unfold computeOne
  split
  · rfl
  · rw [if_pos (by rw [hsel]; rfl)]

theorem computeOne_full {incremental full : Option WindowQueryResult} {window : WindowQueryResult}
    {config : RuntimeDerivedSeriesConfig} (hen : config.enabled = true)
    (hwindow : full = some window) (hok : window.operation.code = .ok) :
    computeOne p registry none incremental full config =
      computeFrom p registry none window.data config := by
  simp [computeOne, selected, refreshRange, hen, hwindow, hok]

theorem sourceUnion_spec (configs : List RuntimeDerivedSeriesConfig) :
    (sourceUnion configs).Nodup ∧
      ∀ s, s ∈ sourceUnion configs ↔ ∃ config ∈ configs, s ∈ sourcesFor config := by
  obtain ⟨hnd, hmem⟩ := unionIds_spec sourcesFor configs List.nodup_nil
  refine ⟨hnd, fun s => (hmem s).trans ?_⟩
  simp

/-- Accepted formulas have sources, and the sources have names. -/
theorem sourceUnion_accepted (hset : AcceptedSet p registry)
    {configs : List RuntimeDerivedSeriesConfig}
    (hconfigs : ∀ config ∈ configs, config ∈ allDerivedSeries p registry) (hne : configs ≠ []) :
    sourceUnion configs ≠ [] ∧ ∀ s ∈ sourceUnion configs, s ≠ "" := by
  obtain ⟨-, hmem⟩ := sourceUnion_spec configs
  constructor
  · obtain ⟨config, hc⟩ := List.exists_mem_of_ne_nil _ hne
    obtain ⟨-, -, hsources, -⟩ := accepted_sources (hset.accepted config (hconfigs config hc))
    obtain ⟨s, hs⟩ := List.exists_mem_of_ne_nil _ hsources
    exact List.ne_nil_of_mem ((hmem s).mpr ⟨config, hc, hs⟩)
  · intro s hs
    obtain ⟨config, hc, hsc⟩ := (hmem s).mp hs
    exact ((accepted_sources (hset.accepted config (hconfigs config hc))).2.2.2 s hsc).1

/-- A query over the sources of some accepted formulas. -/
theorem queryFor_spec (hset : AcceptedSet p registry) {configs : List RuntimeDerivedSeriesConfig}
    (hconfigs : ∀ config ∈ configs, config ∈ allDerivedSeries p registry) (hne : configs ≠ [])
    (hv : AllValid service.sequenceWindows) {watermark : Timestamp}
    (hwm : service.watermarks.find (effectiveProject p) = some watermark)
    (hsize : 0 < windowSize p service) (range : Option IncrementalRange)
    (hcap : range.isSome = true → 0 < capacity)
    (hle : queryStart p (buildQuery (sourceUnion configs) range) watermark service ≤
      queryFinish (buildQuery (sourceUnion configs) range) watermark) :
    ∃ window, queryFor capacity p (sourceUnion configs) range service = .ok (some window) ∧
      window.operation.code = .ok ∧
      (∀ s, Ascending RawTimeseriesPoint.time ((window.data.sequenceValues.find s).getD [])) ∧
      ∀ config ∈ configs, ∀ s ∈ sourcesFor config,
        (window.data.sequenceValues.find s).getD [] =
          sliceOf (queryStart p (buildQuery (sourceUnion configs) range) watermark service)
            (queryFinish (buildQuery (sourceUnion configs) range) watermark)
            (buildQuery (sourceUnion configs) range).precedingPoints
            (buildQuery (sourceUnion configs) range).followingPoints (retained p s service) := by
  obtain ⟨hnd, hmem⟩ := sourceUnion_spec configs
  have hids : (buildQuery (sourceUnion configs) range).sequenceIds = sourceUnion configs := by
    cases range <;> rfl
  obtain ⟨hunion, hnonempty⟩ := sourceUnion_accepted hset hconfigs hne
  -- a full query asks for no context
  have hpre : (buildQuery (sourceUnion configs) range).precedingPoints ≤ capacity := by
    cases range with
    | none => exact Nat.zero_le _
    | some range => exact hcap rfl
  obtain ⟨window, hwindow, hcode, -, -, hfind⟩ := queryWindowData_spec capacity
    (buildQuery (sourceUnion configs) range) hv (by rw [hids]; exact hunion)
    (by rw [hids]; exact hnonempty) (by rw [hids]; exact hnd) hwm hsize hle hpre
  have hvalue : ∀ s ∈ sourceUnion configs, (window.data.sequenceValues.find s).getD [] =
      sliceOf (queryStart p (buildQuery (sourceUnion configs) range) watermark service)
        (queryFinish (buildQuery (sourceUnion configs) range) watermark)
        (buildQuery (sourceUnion configs) range).precedingPoints
        (buildQuery (sourceUnion configs) range).followingPoints (retained p s service) := by
    intro s hs
    rw [hfind s, hids, if_pos hs]
    simp only
    split
    · rename_i hnil
      exact hnil.symm
    · rfl
  refine ⟨window, ?_, hcode, fun s => ?_, fun config hc s hs => hvalue s ((hmem s).mpr
    ⟨config, hc, hs⟩)⟩
  · unfold queryFor
    rw [if_neg (by simpa using hunion), hwindow]
  · by_cases hs : s ∈ sourceUnion configs
    · rw [hvalue s hs]
      exact (ascending_retained hv p s).sublist _ (sliceOf_within ..).sublist
    · rw [hfind s, hids, if_neg hs]
      exact ascending_nil _

end Items

end DerivedPatch
