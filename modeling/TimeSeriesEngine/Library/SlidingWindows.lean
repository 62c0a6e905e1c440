import TimeSeriesEngine.Library.OrderedSeries

/-!
# Sliding windows over a series

`windows m xs` are the slices of `m + 1` consecutive elements.  A scan applies a
partial function to every window and collects what it finds (`found`); in an
ascending series a finding is identified by the key of its window's head.

`rescan_iff` is the theorem an incremental scan rests on: the findings of the
old windows in front of a boundary, overlaid with those of the windows scanned
again, are the findings of the grown series exactly when every window that was
neither kept nor scanned finds nothing.
-/

namespace SlidingWindows

open OrderedSeries

variable {α β κ : Type}

/-- The slices of `m + 1` consecutive elements. -/
def windows (m : Nat) : List α → List (List α)
  | [] => []
  | x :: xs => if xs.length < m then [] else (x :: xs.take m) :: windows m xs

theorem windows_cons_short {m : Nat} {x : α} {xs : List α} (h : xs.length < m) :
    windows m (x :: xs) = [] := by
  rw [windows, if_pos h]

theorem windows_cons_long {m : Nat} {x : α} {xs : List α} (h : m ≤ xs.length) :
    windows m (x :: xs) = (x :: xs.take m) :: windows m xs := by
  rw [windows, if_neg (Nat.not_lt.mpr h)]

/-- Too short a series has no window. -/
theorem windows_of_short {m : Nat} {xs : List α} (h : xs.length ≤ m) : windows m xs = [] := by
  cases xs with
  | nil => rfl
  | cons x xs => exact windows_cons_short (Nat.lt_of_succ_le h)

/-- **Windows are the infixes of their length.** -/
theorem mem_windows {m : Nat} {xs w : List α} :
    w ∈ windows m xs ↔ w <:+: xs ∧ w.length = m + 1 := by
  induction xs with
  | nil =>
      constructor
      · intro h
        exact nomatch h
      · rintro ⟨h, hl⟩
        rw [List.eq_nil_of_infix_nil h] at hl
        exact nomatch hl
  | cons x xs ih =>
      by_cases hs : xs.length < m
      · rw [windows_cons_short hs]
        constructor
        · intro h
          exact nomatch h
        · rintro ⟨h, hl⟩
          have hle := h.length_le
          rw [hl, List.length_cons] at hle
          omega
      · have hm : m ≤ xs.length := Nat.not_lt.mp hs
        rw [windows_cons_long hm, List.mem_cons, ih, List.infix_cons_iff]
        constructor
        · rintro (rfl | ⟨h, hl⟩)
          · refine ⟨Or.inl ?_, ?_⟩
            · exact List.prefix_cons_inj x |>.mpr (List.take_prefix m xs)
            · rw [List.length_cons, List.length_take, Nat.min_eq_left hm]
          · exact ⟨Or.inr h, hl⟩
        · rintro ⟨h | h, hl⟩
          · left
            cases w with
            | nil => exact nomatch hl
            | cons y ys =>
                obtain ⟨rfl, hp⟩ := List.cons_prefix_cons.mp h
                have hlen : ys.length = m := Nat.succ.inj hl
                rw [List.prefix_iff_eq_take.mp hp, hlen]
          · exact Or.inr ⟨h, hl⟩

theorem windows_mono {m : Nat} {xs ys w : List α} (h : xs <:+: ys) (hw : w ∈ windows m xs) :
    w ∈ windows m ys := by
  obtain ⟨h1, h2⟩ := mem_windows.mp hw
  exact mem_windows.mpr ⟨h1.trans h, h2⟩

/-- The windows that end inside the second part. -/
theorem mem_windows_append {m : Nat} {xs ys w : List α} (hw : w ∈ windows m (xs ++ ys))
    (hn : w ∉ windows m xs) : ∃ last ∈ ys, w.getLast? = some last := by
  obtain ⟨⟨pre, post, heq⟩, hl⟩ := mem_windows.mp hw
  cases hlast : w.getLast? with
  | none =>
      rw [List.getLast?_eq_none_iff.mp hlast] at hl
      exact nomatch hl
  | some last =>
      refine ⟨last, ?_, rfl⟩
      by_cases hle : (pre ++ w).length ≤ xs.length
      · -- the window ends inside `xs`, so it is a window of `xs`
        have hpre : pre ++ w <+: xs := by
          have h1 : pre ++ w <+: xs ++ ys := ⟨post, by rw [← heq, List.append_assoc]⟩
          exact List.prefix_of_prefix_length_le h1 (List.prefix_append xs ys) hle
        obtain ⟨rest, hrest⟩ := hpre
        refine absurd (mem_windows.mpr ⟨⟨pre, rest, ?_⟩, hl⟩) hn
        rw [← hrest]
      · obtain ⟨front, rfl⟩ : ∃ front, w = front ++ [last] := by
          refine ⟨w.dropLast, ?_⟩
          have hne : w ≠ [] := by
            intro h
            rw [h] at hlast
            exact nomatch hlast
          rw [List.getLast?_eq_some_getLast hne] at hlast
          rw [← Option.some.inj hlast]
          exact (List.dropLast_append_getLast hne).symm
        have hlen : xs.length < pre.length + (front.length + 1) := by
          have := Nat.not_le.mp hle
          simpa using this
        have hget : (xs ++ ys)[pre.length + front.length]? = some last := by
          rw [← heq]
          simp
        rw [List.getElem?_append_right (by omega)] at hget
        exact List.mem_of_getElem? hget

/-- A window that ends behind `xs` needs only the last `m` elements of `xs`. -/
theorem windows_lastN_append {m k : Nat} (hk : m ≤ k) {xs ys w : List α}
    (hw : w ∈ windows m (xs ++ ys)) (hn : w ∉ windows m xs) :
    w ∈ windows m (lastN k xs ++ ys) := by
  obtain ⟨⟨pre, post, heq⟩, hl⟩ := mem_windows.mp hw
  have hsplit : xs.take (xs.length - k) ++ lastN k xs = xs := List.take_append_drop _ xs
  by_cases hlong : (xs.take (xs.length - k)).length ≤ pre.length
  · -- the window starts inside what is kept
    have heq' : pre ++ (w ++ post) = xs.take (xs.length - k) ++ (lastN k xs ++ ys) := by
      rw [← List.append_assoc, heq, ← List.append_assoc, hsplit]
    have hrest : w ++ post <:+ lastN k xs ++ ys := by
      have h1 : w ++ post <:+ xs.take (xs.length - k) ++ (lastN k xs ++ ys) := ⟨pre, heq'⟩
      refine List.suffix_of_suffix_length_le h1 (List.suffix_append _ _) ?_
      have hlen := congrArg List.length heq'
      simp only [List.length_append] at hlen ⊢
      omega
    obtain ⟨front, hfront⟩ := hrest
    exact mem_windows.mpr ⟨⟨front, post, by rw [List.append_assoc, hfront]⟩, hl⟩
  · -- otherwise it ends inside `xs`
    refine absurd (mem_windows.mpr ⟨?_, hl⟩) hn
    rw [List.length_take, Nat.min_eq_left (Nat.sub_le _ _)] at hlong
    have hprefix : pre ++ w <+: xs := by
      have h1 : pre ++ w <+: xs ++ ys := ⟨post, heq⟩
      refine List.prefix_of_prefix_length_le h1 (List.prefix_append _ _) ?_
      rw [List.length_append, hl]
      omega
    obtain ⟨rest, hrest⟩ := hprefix
    exact ⟨pre, rest, hrest⟩

/-! ## Ascending series -/

section Ascending

variable [LinearOrder κ] (key : α → κ)

/-- Windows of an ascending series are ascending. -/
theorem ascending_of_mem_windows {m : Nat} {xs w : List α} (h : Ascending key xs)
    (hw : w ∈ windows m xs) : Ascending key w :=
  h.sublist _ (mem_windows.mp hw).1.sublist

/-- A window of an ascending series is determined by its head. -/
theorem window_eq_of_head {m : Nat} {xs : List α} (h : Ascending key xs) {x y : α}
    {v w : List α} (hv : x :: v ∈ windows m xs) (hw : y :: w ∈ windows m xs)
    (hk : key x = key y) : x :: v = y :: w := by
  induction xs with
  | nil => exact nomatch hv
  | cons z zs ih =>
      obtain ⟨hz, hzs⟩ := (ascending_cons _).mp h
      by_cases hs : zs.length < m
      · rw [windows_cons_short hs] at hv
        exact nomatch hv
      · rw [windows_cons_long (Nat.not_lt.mp hs)] at hv hw
        -- a later window has a head inside `zs`, whose key is larger
        have hlater : ∀ {a : α} {u : List α}, a :: u ∈ windows m zs → key z < key a := by
          intro a u hu
          exact hz a ((mem_windows.mp hu).1.subset (List.mem_cons_self ..))
        rcases List.mem_cons.mp hv with hv' | hv'
        · rcases List.mem_cons.mp hw with hw' | hw'
          · rw [hv', hw']
          · have hlt := hlater hw'
            rw [← hk, (List.cons.inj hv').1] at hlt
            exact absurd hlt (lt_irrefl _)
        · rcases List.mem_cons.mp hw with hw' | hw'
          · have hlt := hlater hv'
            rw [hk, (List.cons.inj hw').1] at hlt
            exact absurd hlt (lt_irrefl _)
          · exact ih hzs hv' hw'

/-- The windows of the part from `t` on are those whose head is there. -/
theorem mem_windows_atOrAbove {m : Nat} {xs : List α} (h : Ascending key xs) (t : κ) {x : α}
    {rest : List α} :
    x :: rest ∈ windows m (atOrAbove key t xs) ↔ x :: rest ∈ windows m xs ∧ t ≤ key x := by
  constructor
  · intro hw
    have hwithin : atOrAbove key t xs <:+: xs := (List.dropWhile_suffix _).isInfix
    refine ⟨windows_mono hwithin hw, ?_⟩
    have hmem := (mem_windows.mp hw).1.subset (List.mem_cons_self ..)
    exact (h.mem_atOrAbove key |>.mp hmem).2
  · rintro ⟨hw, hle⟩
    have hasc := ascending_of_mem_windows key h hw
    obtain ⟨hwithin, hl⟩ := mem_windows.mp hw
    refine mem_windows.mpr ⟨?_, hl⟩
    rw [h.atOrAbove_eq]
    have hself : (x :: rest).filter (fun y => decide (t ≤ key y)) = x :: rest := by
      refine List.filter_eq_self.mpr fun y hy => decide_eq_true ?_
      rcases List.mem_cons.mp hy with rfl | hy'
      · exact hle
      · exact le_trans hle (le_of_lt ((ascending_cons _).mp hasc |>.1 y hy'))
    rw [← hself]
    exact hwithin.filter _

/-- A window whose elements all lie in a part selected by key is a window of it. -/
theorem windows_filter {m : Nat} {xs w : List α} (hw : w ∈ windows m xs) {keep : α → Bool}
    (hkeep : ∀ x ∈ w, keep x = true) : w ∈ windows m (xs.filter keep) := by
  obtain ⟨hwithin, hl⟩ := mem_windows.mp hw
  refine mem_windows.mpr ⟨?_, hl⟩
  rw [← List.filter_eq_self.mpr hkeep]
  exact hwithin.filter _

/-! ## Findings -/

variable (find : List α → Option β) (at' : β → κ)

/-- What a scan over all windows collects. -/
def found (m : Nat) (xs : List α) : List β := (windows m xs).filterMap find

/-- A finding is filed under the key of its window's head. -/
def FiledAtHead : Prop :=
  ∀ (w : List α) (v : β), find w = some v → ∃ x rest, w = x :: rest ∧ at' v = key x

variable {find at'}

theorem mem_found {m : Nat} {xs : List α} {v : β} :
    v ∈ found find m xs ↔ ∃ w ∈ windows m xs, find w = some v := List.mem_filterMap

/-- What is found comes in order. -/
theorem ascending_found (hf : FiledAtHead key find at') {m : Nat} {xs : List α}
    (h : Ascending key xs) : Ascending at' (found find m xs) := by
  induction xs with
  | nil => exact ascending_nil _
  | cons x xs ih =>
      obtain ⟨hx, hxs⟩ := (ascending_cons _).mp h
      by_cases hs : xs.length < m
      · rw [found, windows_cons_short hs]
        exact ascending_nil _
      · rw [found, windows_cons_long (Nat.not_lt.mp hs), List.filterMap_cons]
        cases hfx : find (x :: xs.take m) with
        | none => exact ih hxs
        | some v =>
            refine (ascending_cons _).mpr ⟨fun u hu => ?_, ih hxs⟩
            obtain ⟨w, hw, hfw⟩ := (mem_found (m := m)).mp hu
            obtain ⟨y, rest, rfl, hy⟩ := hf _ _ hfw
            obtain ⟨z, rest', hz, hat⟩ := hf _ _ hfx
            rw [hat, hy, ← (List.cons.inj hz).1]
            exact hx y ((mem_windows.mp hw).1.subset (List.mem_cons_self ..))

/-- **Rescanning.**  `old` is followed by new elements in `xs`.  The findings of
    the old windows whose head is in front of `start` are kept; the windows in
    `scanned` are looked at again.  The result is a full scan exactly when no
    window is missed that finds something. -/
theorem rescan_iff (hf : FiledAtHead key find at') {m : Nat} {old xs : List α}
    (hasc : Ascending key xs) (hold : old <:+: xs) (start : κ) {scanned : List α → Prop}
    (hscan : ∀ w, scanned w → w ∈ windows m xs) {kept fresh : List β}
    (hkept : Ascending at' kept) (hfresh : Ascending at' fresh)
    (hk : ∀ v, v ∈ kept ↔ ∃ w ∈ windows m old, find w = some v ∧ at' v < start)
    (hn : ∀ v, v ∈ fresh ↔ ∃ w, scanned w ∧ find w = some v) :
    assignAll at' fresh kept = found find m xs ↔
      ∀ w ∈ windows m xs, ¬ scanned w →
        (∀ v, find w = some v → w ∈ windows m old → start ≤ at' v) → find w = none := by
  have hmem : ∀ v, v ∈ assignAll at' fresh kept ↔
      v ∈ fresh ∨ (v ∈ kept ∧ ∀ u ∈ fresh, at' u ≠ at' v) :=
    mem_assignAll_ascending at' hkept hfresh
  -- two findings at one key come from one window
  have hsame : ∀ {u v : β} {w w' : List α}, w ∈ windows m xs → w' ∈ windows m xs →
      find w = some u → find w' = some v → at' u = at' v → w = w' := by
    intro u v w w' hw hw' hu hv huv
    obtain ⟨x, r, rfl, hx⟩ := hf _ _ hu
    obtain ⟨y, r', rfl, hy⟩ := hf _ _ hv
    exact window_eq_of_head key hasc hw hw' (by rw [← hx, ← hy, huv])
  constructor
  · intro heq w hw hnot hkeep
    cases hfw : find w with
    | none => rfl
    | some v =>
        have hv : v ∈ assignAll at' fresh kept := by
          rw [heq]
          exact mem_found.mpr ⟨w, hw, hfw⟩
        rcases (hmem v).mp hv with hfr | ⟨hke, -⟩
        · obtain ⟨w', hs', hfw'⟩ := (hn v).mp hfr
          rw [hsame hw (hscan _ hs') hfw hfw' rfl] at hnot
          exact absurd hs' hnot
        · obtain ⟨w', hw', hfw', hlt⟩ := (hk v).mp hke
          have hww := hsame hw (windows_mono hold hw') hfw hfw' rfl
          rw [← hww] at hw'
          exact absurd (hkeep v hfw hw') (not_le.mpr hlt)
  · intro h
    refine ascending_ext at' (hkept.assignAll _ fresh) (ascending_found key hf hasc) fun v => ?_
    rw [hmem, mem_found]
    constructor
    · rintro (hfr | ⟨hke, -⟩)
      · obtain ⟨w, hs, hfw⟩ := (hn v).mp hfr
        exact ⟨w, hscan w hs, hfw⟩
      · obtain ⟨w, hw, hfw, -⟩ := (hk v).mp hke
        exact ⟨w, windows_mono hold hw, hfw⟩
    · rintro ⟨w, hw, hfw⟩
      by_cases hs : scanned w
      · exact Or.inl ((hn v).mpr ⟨w, hs, hfw⟩)
      · by_cases hold' : w ∈ windows m old ∧ at' v < start
        · by_cases hfr : v ∈ fresh
          · exact Or.inl hfr
          · refine Or.inr ⟨(hk v).mpr ⟨w, hold'.1, hfw, hold'.2⟩, fun u hu huv => hfr ?_⟩
            obtain ⟨w', hs', hfw'⟩ := (hn u).mp hu
            have hww := hsame (hscan _ hs') hw hfw' hfw huv
            rw [hww, hfw] at hfw'
            rw [Option.some.inj hfw']
            exact hu
        · refine absurd (h w hw hs fun u hu hwo => ?_) (by simp [hfw])
          rw [hfw] at hu
          rw [← Option.some.inj hu]
          exact not_lt.mp fun hlt => hold' ⟨hwo, hlt⟩

end Ascending

end SlidingWindows
