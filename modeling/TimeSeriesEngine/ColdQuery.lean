import TimeSeriesEngine.TaosClient
import Mathlib.Data.List.Sort
import Mathlib.Data.List.TakeWhile

/-!
# What a cold query reads

A cold query is text, rows and an order.  The text gives the ids back unless one of
them holds a NUL, where the statement ends too early; the rows decode or do not,
whatever projection asks for them; the order depends on nothing but the rows.

* `readSequenceList_cString` — which lists of ids the database can read;
* `fetchPoints_of_decoded` / `fetchPoints_of_mismatch` — the outcome of the fetch
  loops, without the hints;
* `orderPoints_spec` — the points again, by time and requested order.
-/

namespace TaosClient

open TseTypes KeyedTable HotWindow

/-! ## The list of ids -/

/-- The characters of a literal between its quotes. -/
def escapeChar (ch : Char) : List Char := if ch = '\\' ∨ ch = '\'' then ['\\', ch] else [ch]

theorem escapeLiteral_toList (value : String) :
    (escapeLiteral value).toList = '\'' :: (value.toList.flatMap escapeChar ++ ['\'']) := by
  simp only [escapeLiteral, String.toList_append, String.toList_ofList]
  rfl

/-- What was escaped is read as it was, character by character. -/
theorem read_escaped (cs read : List Char) (ids : List SequenceId) :
    (cs.flatMap escapeChar).foldlM readChar (.body read, ids) = some (.body (read ++ cs), ids) := by
  induction cs generalizing read with
  | nil => simp
  | cons ch cs ih =>
      rw [List.flatMap_cons, List.foldlM_append]
      have hchar : (escapeChar ch).foldlM readChar (.body read, ids) =
          some (.body (read ++ [ch]), ids) := by
        by_cases hspecial : ch = '\\' ∨ ch = '\''
        · rw [escapeChar, if_pos hspecial]
          rfl
        · rw [escapeChar, if_neg hspecial]
          rw [not_or] at hspecial
          show (readChar (.body read, ids) ch >>= fun next => some next) = _
          rw [readChar, if_neg hspecial.1, if_neg hspecial.2]
          rfl
      rw [hchar]
      show List.foldlM readChar (.body (read ++ [ch]), ids) (cs.flatMap escapeChar) = _
      rw [ih, List.append_assoc]
      rfl

/-- Reading a literal gives its text back, and stops behind it. -/
theorem read_literal (value : String) (rest : List Char) (ids : List SequenceId) :
    ((escapeLiteral value).toList ++ rest).foldlM readChar (.start, ids) =
      rest.foldlM readChar (.closed, ids ++ [value]) := by
  rw [escapeLiteral_toList, List.cons_append, List.append_assoc]
  show List.foldlM readChar (.body [], ids) (value.toList.flatMap escapeChar ++ (['\''] ++ rest)) = _
  rw [List.foldlM_append, read_escaped, List.nil_append]
  show List.foldlM readChar (.closed, ids ++ [String.ofList value.toList]) rest = _
  rw [String.ofList_toList]

/-- The whole text gives the ids back. -/
theorem read_sequenceList (ids seen : List SequenceId) (h : ids ≠ []) :
    (sequenceList ids).toList.foldlM readChar (.start, seen) = some (.done, seen ++ ids) := by
  induction ids generalizing seen with
  | nil => exact absurd rfl h
  | cons sequenceId rest ih =>
      cases rest with
      | nil =>
          rw [sequenceList, String.toList_append, read_literal]
          rfl
      | cons next rest =>
          rw [sequenceList, String.toList_append, String.toList_append, List.append_assoc,
            read_literal]
          · show List.foldlM readChar (.start, seen ++ [sequenceId])
              (sequenceList (next :: rest)).toList = _
            rw [ih _ (List.cons_ne_nil next rest), List.append_assoc]
            rfl
          · intro hnil
            cases hnil

/-- Escaping adds and removes quotes and backslashes only. -/
theorem mem_escapeLiteral {value : String} {ch : Char} (hquote : ch ≠ '\'') (hslash : ch ≠ '\\') :
    ch ∈ (escapeLiteral value).toList ↔ ch ∈ value.toList := by
  rw [escapeLiteral_toList]
  have hchar : ∀ c, ch ∈ escapeChar c ↔ ch = c := by
    intro c
    rw [escapeChar]
    split
    · simp [hslash]
    · simp
  simp [hquote, hchar]

/-- A character that is no part of the syntax is in the text iff an id has it. -/
theorem nul_mem_sequenceList (ids : List SequenceId) :
    '\x00' ∈ (sequenceList ids).toList ↔ ∃ s ∈ ids, '\x00' ∈ s.toList := by
  have hquote : ('\x00' : Char) ≠ '\'' := by decide
  have hslash : ('\x00' : Char) ≠ '\\' := by decide
  induction ids with
  | nil =>
      constructor
      · intro hmem
        exact absurd hmem (by decide)
      · rintro ⟨s, hs, -⟩
        exact absurd hs List.not_mem_nil
  | cons sequenceId rest ih =>
      cases rest with
      | nil =>
          rw [sequenceList, String.toList_append, List.mem_append,
            mem_escapeLiteral hquote hslash]
          simp
      | cons next rest =>
          have htext : sequenceList (sequenceId :: next :: rest) =
              escapeLiteral sequenceId ++ "," ++ sequenceList (next :: rest) := rfl
          have hcomma : '\x00' ∉ ",".toList := by decide
          rw [htext, String.toList_append, String.toList_append, List.mem_append, List.mem_append,
            mem_escapeLiteral hquote hslash, List.exists_mem_cons_iff, or_iff_left hcomma]
          exact or_congr_right ih

/-- A text that can be read to its end has no readable part before a character. -/
theorem not_done_of_prefix {pre post : List Char} {ch : Char} {seen : List SequenceId}
    {last : ReadState × List SequenceId}
    (h : (pre ++ ch :: post).foldlM readChar (.start, seen) = some last) (ids : List SequenceId) :
    pre.foldlM readChar (.start, seen) ≠ some (.done, ids) := by
  intro hdone
  rw [List.foldlM_append, hdone] at h
  cases h

/-- The database reads the ids back, or the statement ends inside a literal. -/
theorem readSequenceList_cString {ids : List SequenceId} (h : ids ≠ []) :
    readSequenceList (cString (sequenceList ids)) =
      if ∃ s ∈ ids, '\x00' ∈ s.toList then none else some ids := by
  have hfull := read_sequenceList ids [] h
  split
  · rename_i hnul
    have hmem := (nul_mem_sequenceList ids).mpr hnul
    -- the first NUL cuts the text in front of something
    obtain ⟨ch, post, hpost⟩ : ∃ ch post,
        (sequenceList ids).toList.dropWhile (fun ch => decide (ch ≠ '\x00')) = ch :: post := by
      cases hdrop : (sequenceList ids).toList.dropWhile (fun ch => decide (ch ≠ '\x00')) with
      | cons ch post => exact ⟨ch, post, rfl⟩
      | nil =>
          rw [List.dropWhile_eq_nil_iff] at hdrop
          simpa using hdrop _ hmem
    have hsplit : (sequenceList ids).toList = cString (sequenceList ids) ++ ch :: post := by
      rw [← hpost]
      exact List.takeWhile_append_dropWhile.symm
    rw [hsplit] at hfull
    have hcut := not_done_of_prefix hfull
    rw [readSequenceList]
    split
    · rename_i found heq
      exact absurd heq (hcut found)
    · rfl
  · rename_i hnul
    have hall : cString (sequenceList ids) = (sequenceList ids).toList := by
      refine List.takeWhile_eq_self_iff.mpr fun ch hch => ?_
      have hne : ch ≠ '\x00' := by
        intro e
        exact hnul ((nul_mem_sequenceList ids).mp (e ▸ hch))
      simpa using hne
    rw [readSequenceList, hall, hfull]
    rfl

/-! ## Decoding -/

/-- A map that fails nowhere. -/
theorem mapM_of_forall {α β : Type} {f : α → Option β} {g : α → β} {xs : List α}
    (h : ∀ x ∈ xs, f x = some (g x)) : xs.mapM f = some (xs.map g) := by
  induction xs with
  | nil => rfl
  | cons x xs ih =>
      rw [List.mapM_cons, h x (List.mem_cons_self ..),
        ih fun y hy => h y (List.mem_cons_of_mem x hy)]
      rfl

/-- A map that fails somewhere. -/
theorem mapM_of_exists {α β : Type} {f : α → Option β} {xs : List α} {x : α} (hx : x ∈ xs)
    (h : f x = none) : xs.mapM f = none := by
  induction xs with
  | nil => exact absurd hx List.not_mem_nil
  | cons y xs ih =>
      rw [List.mapM_cons]
      rcases List.mem_cons.mp hx with e | hrest
      · rw [← e, h]
        rfl
      · rw [ih hrest]
        cases f y <;> rfl

/-- The code of a kind stands for the kind. -/
theorem kindOfType_code {kind : TimeseriesValueKind} (h : kind ≠ .unknown) :
    kindOfType (valueTypeCode kind) = kind := by
  cases kind with
  | unknown => exact absurd rfl h
  | double => rfl
  | int64 => rfl
  | bool => rfl
  | string => rfl

/-- A row the typed projection decodes, the generic one decodes to the same point. -/
theorem decodeGeneric_of_typed {p : ProjectId} {kind : TimeseriesValueKind} {row : ResultRow}
    {point : RawTimeseriesPoint} (h : decodeTyped p kind row = some point) :
    decodeGeneric p row = some point := by
  rw [decodeTyped] at h
  split at h
  · cases h
  · rename_i htype
    rw [ne_eq, not_not] at htype
    have hknown : kind ≠ .unknown := by
      intro e
      rw [e] at h
      cases h
    rw [decodeGeneric, htype, kindOfType_code hknown]
    exact h

/-- The hints do not show: with every row decoded, the points are those of the
    generic projection, in one of the two orders the rows came in. -/
theorem fetchPoints_of_decoded {p : ProjectId} (kind : Option TimeseriesValueKind)
    {arrange : Bool → List ResultRow → List ResultRow} {rows : List ResultRow}
    {g : ResultRow → RawTimeseriesPoint} (harr : ∀ typed, (arrange typed rows).Perm rows)
    (h : ∀ row ∈ rows, decodeGeneric p row = some (g row)) :
    ∃ typed, fetchPoints p kind arrange rows = some ((arrange typed rows).map g) := by
  have hgeneric := mapM_of_forall fun row hrow => h row ((harr false).mem_iff.mp hrow)
  cases kind with
  | none => exact ⟨false, hgeneric⟩
  | some kind =>
      show ∃ typed, ((arrange true rows).mapM (decodeTyped p kind)).or
        ((arrange false rows).mapM (decodeGeneric p)) = _
      by_cases hall : ∀ row ∈ arrange true rows, (decodeTyped p kind row).isSome
      · have htyped : ∀ row ∈ arrange true rows, decodeTyped p kind row = some (g row) := by
          intro row hrow
          obtain ⟨point, hpoint⟩ := Option.isSome_iff_exists.mp (hall row hrow)
          rw [hpoint, ← decodeGeneric_of_typed hpoint]
          exact h row ((harr true).mem_iff.mp hrow)
        refine ⟨true, ?_⟩
        rw [mapM_of_forall htyped, Option.some_or]
      · -- a mismatch starts over with the generic projection
        simp only [not_forall] at hall
        obtain ⟨row, hrow, hnone⟩ := hall
        refine ⟨false, ?_⟩
        rw [mapM_of_exists hrow (Option.not_isSome_iff_eq_none.mp hnone), Option.none_or]
        exact hgeneric

/-- One row without a value in the column of its tag is an error for every hint. -/
theorem fetchPoints_of_mismatch {p : ProjectId} (kind : Option TimeseriesValueKind)
    {arrange : Bool → List ResultRow → List ResultRow} {rows : List ResultRow} {row : ResultRow}
    (harr : ∀ typed, (arrange typed rows).Perm rows) (hrow : row ∈ rows)
    (h : decodeGeneric p row = none) : fetchPoints p kind arrange rows = none := by
  have hgeneric := mapM_of_exists ((harr false).mem_iff.mpr hrow) h
  cases kind with
  | none => exact hgeneric
  | some kind =>
      have htyped : decodeTyped p kind row = none := by
        cases hpoint : decodeTyped p kind row with
        | none => rfl
        | some point =>
            have hsome := decodeGeneric_of_typed hpoint
            rw [h] at hsome
            cases hsome
      show ((arrange true rows).mapM (decodeTyped p kind)).or
        ((arrange false rows).mapM (decodeGeneric p)) = none
      rw [mapM_of_exists ((harr true).mem_iff.mpr hrow) htyped, Option.none_or]
      exact hgeneric

/-! ## The order of the points -/

instance requestedTotal (ids : List SequenceId) :
    Std.Total fun left right : RawTimeseriesPoint =>
      requestedOrder ids left ≤ requestedOrder ids right :=
  ⟨fun left right => le_total (requestedOrder ids left) (requestedOrder ids right)⟩

instance requestedTrans (ids : List SequenceId) :
    IsTrans RawTimeseriesPoint fun left right =>
      requestedOrder ids left ≤ requestedOrder ids right :=
  ⟨fun _ _ _ => le_trans⟩

instance timeThenRequestedTotal (ids : List SequenceId) : Std.Total (timeThenRequested ids) :=
  ⟨fun left right => by
    rcases lt_trichotomy left.time right.time with h | h | h
    · exact Or.inl (Or.inl h)
    · rcases le_total (requestedOrder ids left) (requestedOrder ids right) with hle | hle
      · exact Or.inl (Or.inr ⟨h, hle⟩)
      · exact Or.inr (Or.inr ⟨h.symm, hle⟩)
    · exact Or.inr (Or.inl h)⟩

instance timeThenRequestedTrans (ids : List SequenceId) :
    IsTrans RawTimeseriesPoint (timeThenRequested ids) :=
  ⟨fun first second third h h' => by
    rcases h with h | ⟨h, hle⟩ <;> rcases h' with h' | ⟨h', hle'⟩
    · exact Or.inl (h.trans h')
    · exact Or.inl (h.trans_eq h')
    · exact Or.inl (h.trans_lt h')
    · exact Or.inr ⟨h.trans h', hle.trans hle'⟩⟩

/-- The check of neighbouring rows is a check of all rows. -/
theorem timeOrdered_pairwise {points : List RawTimeseriesPoint} (h : timeOrdered points = true) :
    points.Pairwise fun left right => left.time ≤ right.time := by
  induction points with
  | nil => exact List.Pairwise.nil
  | cons first rest ih =>
      cases rest with
      | nil => exact List.pairwise_singleton ..
      | cons second rest =>
          rw [timeOrdered, Bool.and_eq_true, decide_eq_true_eq] at h
          obtain ⟨hfirst, hrest⟩ := h
          have hpair := ih hrest
          refine List.pairwise_cons.mpr ⟨fun point hpoint => ?_, hpair⟩
          rcases List.mem_cons.mp hpoint with e | hmem
          · rw [e]
            exact hfirst
          · exact hfirst.trans ((List.pairwise_cons.mp hpair).1 point hmem)

/-- In an ordered list the times after the first run are other times. -/
theorem time_after_run {time : Timestamp} {points : List RawTimeseriesPoint}
    (hordered : points.Pairwise fun left right => left.time ≤ right.time)
    (hle : ∀ point ∈ points, time ≤ point.time) {point : RawTimeseriesPoint}
    (h : point ∈ points.dropWhile fun point => decide (point.time = time)) : time < point.time := by
  induction points with
  | nil => exact absurd h List.not_mem_nil
  | cons first rest ih =>
      obtain ⟨hfirst, hrest⟩ := List.pairwise_cons.mp hordered
      by_cases heq : first.time = time
      · rw [List.dropWhile_cons_of_pos (by simpa using heq)] at h
        exact ih hrest (fun point hpoint => hle point (List.mem_cons_of_mem first hpoint)) h
      · rw [List.dropWhile_cons_of_neg (by simpa using heq)] at h
        have hlt := lt_of_le_of_ne (hle first (List.mem_cons_self ..)) (Ne.symm heq)
        rcases List.mem_cons.mp h with e | hmem
        · rw [e]
          exact hlt
        · exact hlt.trans_le (hfirst point hmem)

/-- The first run of equal times, and what lies after it. -/
theorem firstRun_append (first : RawTimeseriesPoint) (rest : List RawTimeseriesPoint) :
    (first :: rest).takeWhile (fun point => decide (point.time = first.time)) ++
      rest.dropWhile (fun point => decide (point.time = first.time)) = first :: rest := by
  have hrun : (first :: rest).dropWhile (fun point => decide (point.time = first.time)) =
      rest.dropWhile fun point => decide (point.time = first.time) := by
    rw [List.dropWhile_cons_of_pos (by simp)]
  rw [← hrun]
  exact List.takeWhile_append_dropWhile

theorem firstRun_time {first point : RawTimeseriesPoint} {rest : List RawTimeseriesPoint}
    (h : point ∈ (first :: rest).takeWhile fun point => decide (point.time = first.time)) :
    point.time = first.time := by
  simpa using List.mem_takeWhile_imp h

/-- The loop over the runs of equal times: the same points, in order if the times
    were. -/
theorem sortEqualTimes_spec (ids : List SequenceId) (points : List RawTimeseriesPoint) :
    (sortEqualTimes ids points).Perm points ∧
      ((points.Pairwise fun left right => left.time ≤ right.time) →
        (sortEqualTimes ids points).Pairwise (timeThenRequested ids)) := by
  induction points using sortEqualTimes.induct with
  | case1 =>
      rw [sortEqualTimes]
      exact ⟨List.Perm.nil, fun _ => List.Pairwise.nil⟩
  | case2 first rest ih =>
      rw [sortEqualTimes]
      refine ⟨?_, fun htimes => ?_⟩
      · exact ((List.perm_insertionSort _ _).append ih.1).trans (.of_eq (firstRun_append first rest))
      · obtain ⟨hfirst, hrest⟩ := List.pairwise_cons.mp htimes
        refine List.pairwise_append.mpr ⟨?_, ih.2 (hrest.sublist (List.dropWhile_sublist _)),
          fun left hleft right hright => ?_⟩
        · refine (List.pairwise_insertionSort _ _).imp_of_mem fun hleft hright hle => ?_
          rw [List.mem_insertionSort] at hleft hright
          exact Or.inr ⟨(firstRun_time hleft).trans (firstRun_time hright).symm, hle⟩
        · rw [List.mem_insertionSort] at hleft
          rw [ih.1.mem_iff] at hright
          exact Or.inl ((firstRun_time hleft).trans_lt (time_after_run hrest hfirst hright))

/-- Either way the points come out by time and requested order. -/
theorem orderPoints_spec (ids : List SequenceId) (points : List RawTimeseriesPoint) :
    (orderPoints ids points).Perm points ∧
      (orderPoints ids points).Pairwise (timeThenRequested ids) := by
  rw [orderPoints]
  split
  · rename_i hordered
    exact ⟨(sortEqualTimes_spec ids points).1,
      (sortEqualTimes_spec ids points).2 (timeOrdered_pairwise hordered)⟩
  · exact ⟨List.perm_insertionSort _ points, List.pairwise_insertionSort _ points⟩

/-- Points that time and sequence tell apart have one order, whatever order they
    came in. -/
theorem orderPoints_of_perm {ids : List SequenceId} {points points' : List RawTimeseriesPoint}
    (hids : ∀ point ∈ points, point.sequenceId ∈ ids)
    (happart : ∀ left ∈ points, ∀ right ∈ points,
      left.time = right.time → left.sequenceId = right.sequenceId → left = right)
    (h : points'.Perm points) : orderPoints ids points' = orderPoints ids points := by
  obtain ⟨hperm, hsorted⟩ := orderPoints_spec ids points
  obtain ⟨hperm', hsorted'⟩ := orderPoints_spec ids points'
  refine @List.Perm.eq_of_pairwise _ (timeThenRequested ids) _ _ ?_ hsorted' hsorted
    ((hperm'.trans h).trans hperm.symm)
  intro left right hleft hright hle hge
  have hleft' := (hperm'.trans h).mem_iff.mp hleft
  have hright' := hperm.mem_iff.mp hright
  -- neither is before the other: one time, one place in the request
  rcases hle with hlt | ⟨htime, hle⟩
  · rcases hge with hgt | ⟨htime, -⟩
    · exact absurd hlt (lt_asymm hgt)
    · exact absurd hlt (htime ▸ lt_irrefl _)
  · rcases hge with hgt | ⟨-, hge⟩
    · exact absurd hgt (htime ▸ lt_irrefl _)
    · have hplace : ids.idxOf left.sequenceId = ids.idxOf right.sequenceId := le_antisymm hle hge
      exact happart left hleft' right hright' htime
        ((List.idxOf_inj (hids left hleft')).mp hplace)

/-! ## The outcome of a query -/

/-- The point of a row, if it has one. -/
def decoded (p : ProjectId) (row : ResultRow) : RawTimeseriesPoint :=
  pointOf p row ((columnValue row.columns (kindOfType row.valueType)).getD (.bool false))

/-- A row that is decoded gives its point. -/
theorem decodeGeneric_of_isSome {p : ProjectId} {row : ResultRow}
    (h : (decodeGeneric p row).isSome) : decodeGeneric p row = some (decoded p row) := by
  rw [decodeGeneric, decoded]
  rw [decodeGeneric, Option.isSome_map] at h
  obtain ⟨value, hvalue⟩ := Option.isSome_iff_exists.mp h
  rw [hvalue]
  rfl

/-- What `queryRaw` asks of a request before it looks at a row. -/
structure ValidRequest (p : ProjectId) (ids : List SequenceId) : Prop where
  requested : ids ≠ []
  project : p ≠ ""
  named : ∀ s ∈ ids, s ≠ ""
  noNul : ∀ s ∈ ids, '\x00' ∉ s.toList

section Outcome

variable {p : ProjectId} {ids : List SequenceId} {start finish : Timestamp}

/-- A valid request gets as far as the rows. -/
theorem queryRaw_valid (baseName : String) (hvalid : ValidRequest p ids) (hlt : start < finish)
    (kinds : Option (Table SequenceId TimeseriesValueKind))
    (arrange : Bool → List ResultRow → List ResultRow) (database : Database)
    (out : TimeseriesBatch) :
    queryRaw baseName p ids start finish kinds arrange database out =
      finishQuery ids { out with projectId := p } (fetchPoints p (typedKind ids kinds) arrange
        (selectRows (projectStableName baseName p) ids start finish database)) := by
  have hids : ¬ ids.isEmpty = true := fun h => hvalid.requested (List.isEmpty_iff.mp h)
  have hnamed : ¬ (ids.any fun sequenceId => sequenceId.isEmpty) = true := by
    intro h
    obtain ⟨s, hs, hempty⟩ := List.any_eq_true.mp h
    exact hvalid.named s hs (String.isEmpty_iff.mp hempty)
  have hproject : ¬ p.isEmpty = true := fun h => hvalid.project (String.isEmpty_iff.mp h)
  have hnul : ¬ ∃ s ∈ ids, '\x00' ∈ s.toList := fun ⟨s, hs, hmem⟩ => hvalid.noNul s hs hmem
  have hread := readSequenceList_cString hvalid.requested
  rw [if_neg hnul] at hread
  rw [queryRaw, if_neg hids, if_neg (not_lt.mpr hlt.le), if_neg hnamed, if_neg hproject,
    if_neg hlt.ne, hread]

/-- Any other request is an error, the same one for every hint. -/
theorem queryRaw_invalid (baseName : String) (hinvalid : ¬ ValidRequest p ids)
    (hlt : start < finish) :
    ∃ result : OperationResult, result.code ≠ .ok ∧
      ∀ kinds arrange database out,
        queryRaw baseName p ids start finish kinds arrange database out =
          ({ out with projectId := p }, result) := by
  by_cases hids : ids.isEmpty = true
  · refine ⟨_, ?_, fun kinds arrange database out => by rw [queryRaw, if_pos hids]⟩
    intro e
    cases e
  by_cases hnamed : (ids.any fun sequenceId => sequenceId.isEmpty) = true
  · refine ⟨_, ?_, fun kinds arrange database out => by
      rw [queryRaw, if_neg hids, if_neg (not_lt.mpr hlt.le), if_pos hnamed]⟩
    intro e
    cases e
  by_cases hproject : p.isEmpty = true
  · refine ⟨_, ?_, fun kinds arrange database out => by
      rw [queryRaw, if_neg hids, if_neg (not_lt.mpr hlt.le), if_neg hnamed, if_pos hproject]⟩
    intro e
    cases e
  -- what is left is a NUL in an id
  have hne : ids ≠ [] := fun h => hids (List.isEmpty_iff.mpr h)
  have hnul : ∃ s ∈ ids, '\x00' ∈ s.toList := by
    by_contra hnone
    rw [not_exists] at hnone
    refine hinvalid ⟨hne, fun h => hproject (String.isEmpty_iff.mpr h), fun s hs h => hnamed ?_,
      fun s hs h => hnone s ⟨hs, h⟩⟩
    exact List.any_eq_true.mpr ⟨s, hs, String.isEmpty_iff.mpr h⟩
  have hread := readSequenceList_cString hne
  rw [if_pos hnul] at hread
  refine ⟨_, ?_, fun kinds arrange database out => by
    rw [queryRaw, if_neg hids, if_neg (not_lt.mpr hlt.le), if_neg hnamed, if_neg hproject,
      if_neg hlt.ne, hread]⟩
  intro e
  cases e

/-- Rows that all decode, and that time and sequence tell apart: one answer for every
    hint and every order of the rows. -/
theorem queryRaw_of_decoded {baseName : String} {database : Database}
    (hvalid : ValidRequest p ids) (hlt : start < finish)
    (kinds : Option (Table SequenceId TimeseriesValueKind))
    {arrange : Bool → List ResultRow → List ResultRow} (out : TimeseriesBatch)
    (harr : ∀ typed rows, (arrange typed rows).Perm rows)
    (hids : ∀ row ∈ selectRows (projectStableName baseName p) ids start finish database,
      row.sequenceId ∈ ids)
    (happart : ∀ row ∈ selectRows (projectStableName baseName p) ids start finish database,
      ∀ row' ∈ selectRows (projectStableName baseName p) ids start finish database,
        row.time = row'.time → row.sequenceId = row'.sequenceId → row = row')
    (hdecode : ∀ row ∈ selectRows (projectStableName baseName p) ids start finish database,
      (decodeGeneric p row).isSome) :
    queryRaw baseName p ids start finish kinds arrange database out =
      ({ out with
          projectId := p
          points := orderPoints ids
            ((selectRows (projectStableName baseName p) ids start finish database).map (decoded p)) },
        okResult (selectRows (projectStableName baseName p) ids start finish database).length
          "raw query completed") := by
  obtain ⟨typed, hfetch⟩ := fetchPoints_of_decoded (typedKind ids kinds) (fun typed => harr typed _)
    fun row hrow => decodeGeneric_of_isSome (hdecode row hrow)
  have hperm := (harr typed
    (selectRows (projectStableName baseName p) ids start finish database)).map (decoded p)
  rw [queryRaw_valid baseName hvalid hlt, hfetch, finishQuery, orderPoints_of_perm ?_ ?_ hperm,
    List.length_map, (harr typed _).length_eq]
  · intro point hpoint
    obtain ⟨row, hrow, rfl⟩ := List.mem_map.mp hpoint
    exact hids row hrow
  · intro left hleft right hright htime hsequence
    obtain ⟨row, hrow, rfl⟩ := List.mem_map.mp hleft
    obtain ⟨row', hrow', rfl⟩ := List.mem_map.mp hright
    rw [happart row hrow row' hrow' htime hsequence]

/-- One row that does not decode: one error for every hint and every order. -/
theorem queryRaw_of_mismatch {baseName : String} {database : Database}
    (hvalid : ValidRequest p ids) (hlt : start < finish)
    (kinds : Option (Table SequenceId TimeseriesValueKind))
    {arrange : Bool → List ResultRow → List ResultRow} (out : TimeseriesBatch)
    (harr : ∀ typed rows, (arrange typed rows).Perm rows) {row : ResultRow}
    (hrow : row ∈ selectRows (projectStableName baseName p) ids start finish database)
    (h : decodeGeneric p row = none) :
    queryRaw baseName p ids start finish kinds arrange database out =
      ({ out with projectId := p },
        internalError "query raw data returned an invalid typed value") := by
  rw [queryRaw_valid baseName hvalid hlt,
    fetchPoints_of_mismatch (typedKind ids kinds) (fun typed => harr typed _) hrow h, finishQuery]

end Outcome

end TaosClient
