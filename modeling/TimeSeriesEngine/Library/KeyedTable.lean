import Mathlib.Logic.Function.Basic
import Mathlib.Data.List.Nodup

/-!
# Keyed tables — a lookup function together with the list of its keys

An unordered map is read through `find`; the keys are kept in order of creation
so that a caller can walk them.  The two agree by construction (`mem_keys`), and
two tables are equal as soon as keys and lookups are (`Table.ext`), so updates
at different keys commute literally (`adjust_comm`, `adjust_put_comm`).

`restrict` keeps the entries under some keys; an update at a kept key commutes
with it, an update at any other key disappears.
-/

namespace KeyedTable

/-- An unordered map: the keys present, in order of creation, and the lookup. -/
structure Table (κ ν : Type) where
  keys : List κ
  find : κ → Option ν
  nodup : keys.Nodup
  mem_keys : ∀ k, k ∈ keys ↔ (find k).isSome

variable {κ ν : Type}

theorem Table.ext {s t : Table κ ν} (hk : s.keys = t.keys) (hf : s.find = t.find) : s = t := by
  cases s
  cases t
  cases hk
  cases hf
  rfl

/-- No keys. -/
def empty : Table κ ν := ⟨[], fun _ => none, List.nodup_nil, by simp⟩

@[simp] theorem find_empty (k : κ) : (empty : Table κ ν).find k = none := rfl

@[simp] theorem keys_empty : (empty : Table κ ν).keys = [] := rfl

variable [DecidableEq κ]

/-- `m[k] = v`. -/
def put (k : κ) (v : ν) (t : Table κ ν) : Table κ ν where
  keys := if k ∈ t.keys then t.keys else t.keys ++ [k]
  find := Function.update t.find k (some v)
  nodup := by
    split
    · exact t.nodup
    · rename_i hk
      exact List.nodup_append.mpr ⟨t.nodup, List.nodup_singleton k, fun a ha b hb hab =>
        hk (by rw [← List.mem_singleton.mp hb, ← hab]; exact ha)⟩
  mem_keys := by
    intro k'
    by_cases h : k' = k
    · subst h
      split <;> simp_all
    · rw [Function.update_of_ne h]
      split
      · exact t.mem_keys k'
      · simpa [h] using t.mem_keys k'

/-- Change the value at a key that is present. -/
def adjust (k : κ) (f : ν → ν) (t : Table κ ν) : Table κ ν where
  keys := t.keys
  find := Function.update t.find k ((t.find k).map f)
  nodup := t.nodup
  mem_keys := by
    intro k'
    by_cases h : k' = k
    · subst h
      simpa using t.mem_keys k'
    · rw [Function.update_of_ne h]
      exact t.mem_keys k'

/-- Remove a key. -/
def erase (k : κ) (t : Table κ ν) : Table κ ν where
  keys := t.keys.erase k
  find := Function.update t.find k none
  nodup := t.nodup.erase k
  mem_keys := by
    intro k'
    rw [t.nodup.mem_erase_iff]
    by_cases h : k' = k
    · simp [h]
    · simpa [h] using t.mem_keys k'

/-- The value at a key, created as `v` when the key is absent. -/
def ensure (k : κ) (v : ν) (t : Table κ ν) : Table κ ν :=
  if (t.find k).isSome then t else put k v t

@[simp] theorem find_put_self (k : κ) (v : ν) (t : Table κ ν) : (put k v t).find k = some v :=
  Function.update_self ..

theorem find_put_of_ne {k k' : κ} (h : k' ≠ k) (v : ν) (t : Table κ ν) :
    (put k v t).find k' = t.find k' :=
  Function.update_of_ne h ..

theorem find_put (k k' : κ) (v : ν) (t : Table κ ν) :
    (put k v t).find k' = if k' = k then some v else t.find k' := by
  by_cases h : k' = k
  · rw [if_pos h, h, find_put_self]
  · rw [if_neg h, find_put_of_ne h]

theorem mem_keys_put (k k' : κ) (v : ν) (t : Table κ ν) :
    k' ∈ (put k v t).keys ↔ k' = k ∨ k' ∈ t.keys := by
  rw [(put k v t).mem_keys, find_put, t.mem_keys]
  by_cases h : k' = k <;> simp [h]

@[simp] theorem keys_adjust (k : κ) (f : ν → ν) (t : Table κ ν) :
    (adjust k f t).keys = t.keys := rfl

@[simp] theorem find_adjust_self (k : κ) (f : ν → ν) (t : Table κ ν) :
    (adjust k f t).find k = (t.find k).map f :=
  Function.update_self ..

theorem find_adjust_of_ne {k k' : κ} (h : k' ≠ k) (f : ν → ν) (t : Table κ ν) :
    (adjust k f t).find k' = t.find k' :=
  Function.update_of_ne h ..

theorem find_adjust (k k' : κ) (f : ν → ν) (t : Table κ ν) :
    (adjust k f t).find k' = if k' = k then (t.find k').map f else t.find k' := by
  by_cases h : k' = k
  · rw [if_pos h, h, find_adjust_self]
  · rw [if_neg h, find_adjust_of_ne h]

@[simp] theorem find_erase_self (k : κ) (t : Table κ ν) : (erase k t).find k = none :=
  Function.update_self ..

theorem find_erase_of_ne {k k' : κ} (h : k' ≠ k) (t : Table κ ν) :
    (erase k t).find k' = t.find k' :=
  Function.update_of_ne h ..

/-- What a table holds after a key has been ensured. -/
theorem find_ensure (k k' : κ) (v : ν) (t : Table κ ν) :
    (ensure k v t).find k' = if k' = k then some ((t.find k).getD v) else t.find k' := by
  rw [ensure]
  cases hf : t.find k with
  | none => simp [find_put]
  | some u =>
      by_cases h : k' = k
      · simp [h, hf]
      · simp [h]

theorem mem_keys_ensure (k k' : κ) (v : ν) (t : Table κ ν) :
    k' ∈ (ensure k v t).keys ↔ k' = k ∨ k' ∈ t.keys := by
  rw [(ensure k v t).mem_keys, find_ensure, t.mem_keys]
  by_cases h : k' = k <;> simp [h]

/-! ## Carrying entries over -/

/-- Add the entries of `old` whose key passes a test, where the key is free. -/
def adopt (keep : κ → Bool) (old new : Table κ ν) : Table κ ν :=
  (old.keys.filter keep).foldl
    (fun acc k =>
      match old.find k with
      | some v => ensure k v acc
      | none => acc)
    new

/-- What a table holds after it has adopted a part of another. -/
theorem find_adopt (keep : κ → Bool) (old new : Table κ ν) (k : κ) :
    (adopt keep old new).find k = (new.find k).or (if keep k then old.find k else none) := by
  have hfold : ∀ (ks : List κ) (acc : Table κ ν),
      (ks.foldl (fun acc k =>
        match old.find k with
        | some v => ensure k v acc
        | none => acc) acc).find k = (acc.find k).or (if k ∈ ks then old.find k else none) := by
    intro ks
    induction ks with
    | nil => simp
    | cons x ks ih =>
        intro acc
        rw [List.foldl_cons, ih]
        cases hx : old.find x with
        | none =>
            by_cases hk : k = x
            · simp [hk, hx]
            · simp [hk]
        | some v =>
            simp only [find_ensure]
            by_cases hk : k = x
            · subst hk
              cases hacc : acc.find k <;> simp [hx]
            · simp [hk]
  rw [adopt, hfold]
  by_cases hkeep : keep k = true
  · cases hold : old.find k with
    | none => simp
    | some v =>
        have hmem : k ∈ old.keys.filter keep :=
          List.mem_filter.mpr ⟨(old.mem_keys k).mpr (by rw [hold]; rfl), hkeep⟩
        simp [hmem, hkeep]
  · have hnot : k ∉ old.keys.filter keep := fun h => hkeep (List.mem_filter.mp h).2
    simp [hnot, hkeep]

/-- The keys after a part of another table has been adopted. -/
theorem keys_adopt (keep : κ → Bool) (old new : Table κ ν) :
    (adopt keep old new).keys =
      new.keys ++ (old.keys.filter keep).filter fun k => decide (k ∉ new.keys) := by
  have hfold : ∀ (ks : List κ) (acc : Table κ ν), ks.Nodup → (∀ k ∈ ks, k ∈ old.keys) →
      (ks.foldl (fun acc k =>
        match old.find k with
        | some v => ensure k v acc
        | none => acc) acc).keys = acc.keys ++ ks.filter fun k => decide (k ∉ acc.keys) := by
    intro ks
    induction ks with
    | nil => simp
    | cons x ks ih =>
        intro acc hnd hold
        obtain ⟨hx, hnd'⟩ := List.nodup_cons.mp hnd
        obtain ⟨v, hv⟩ := Option.isSome_iff_exists.mp
          ((old.mem_keys x).mp (hold x (List.mem_cons_self ..)))
        have hrest := fun k hk => hold k (List.mem_cons_of_mem x hk)
        simp only [List.foldl_cons, hv]
        by_cases hmem : x ∈ acc.keys
        · have hensure : ensure x v acc = acc := if_pos ((acc.mem_keys x).mp hmem)
          rw [hensure, ih acc hnd' hrest, List.filter_cons_of_neg (by simpa using hmem)]
        · have hensure : ensure x v acc = put x v acc := if_neg fun h => hmem ((acc.mem_keys x).mpr h)
          have hkeys : (put x v acc).keys = acc.keys ++ [x] := if_neg hmem
          rw [hensure, ih _ hnd' hrest, List.filter_cons_of_pos (by simpa using hmem), hkeys,
            List.append_assoc, List.singleton_append]
          -- the key just added is no longer among the rest
          refine congrArg (fun rest => acc.keys ++ x :: rest) (List.filter_congr fun k hk => ?_)
          have hne : k ≠ x := fun e => hx (by rw [← e]; exact hk)
          simp [hne]
  exact hfold _ new (old.nodup.filter keep) fun k hk => (List.mem_filter.mp hk).1

/-! ## Updates at different keys commute -/

/-- Adjustments of two keys commute. -/
theorem adjust_comm {k k' : κ} (h : k ≠ k') (f g : ν → ν) (t : Table κ ν) :
    adjust k f (adjust k' g t) = adjust k' g (adjust k f t) := by
  refine Table.ext rfl ?_
  funext x
  simp only [find_adjust]
  by_cases h1 : x = k
  · simp [h1, h]
  · simp [h1]

/-- An adjustment and a write of two keys commute. -/
theorem adjust_put_comm {k k' : κ} (h : k ≠ k') (f : ν → ν) (v : ν) (t : Table κ ν) :
    adjust k f (put k' v t) = put k' v (adjust k f t) := by
  refine Table.ext rfl ?_
  funext x
  simp only [find_adjust, find_put]
  by_cases h1 : x = k'
  · have h2 : k' ≠ k := fun e => h e.symm
    simp [h1, h2]
  · simp [h1]

/-! ## The entries under some keys -/

section Restrict

omit [DecidableEq κ]

/-- The entries whose key passes a test. -/
def restrict (keep : κ → Bool) (t : Table κ ν) : Table κ ν where
  keys := t.keys.filter keep
  find := fun k => if keep k then t.find k else none
  nodup := t.nodup.filter keep
  mem_keys := by
    intro k
    rw [List.mem_filter, t.mem_keys]
    by_cases h : keep k = true
    · simp [h]
    · simp [h]

@[simp] theorem keys_restrict (keep : κ → Bool) (t : Table κ ν) :
    (restrict keep t).keys = t.keys.filter keep := rfl

theorem find_restrict {keep : κ → Bool} {k : κ} (h : keep k = true) (t : Table κ ν) :
    (restrict keep t).find k = t.find k :=
  if_pos h

theorem find_restrict_of_not {keep : κ → Bool} {k : κ} (h : keep k = false) (t : Table κ ν) :
    (restrict keep t).find k = none :=
  if_neg (by rw [h]; exact Bool.false_ne_true)

/-- A restriction that keeps every key present changes nothing. -/
theorem restrict_of_all {keep : κ → Bool} {t : Table κ ν} (h : ∀ k ∈ t.keys, keep k = true) :
    restrict keep t = t := by
  refine Table.ext (List.filter_eq_self.mpr h) ?_
  funext x
  by_cases hx : keep x = true
  · exact find_restrict hx t
  · have hnone : t.find x = none := by
      rw [← Option.not_isSome_iff_eq_none, ← t.mem_keys]
      exact fun hmem => hx (h x hmem)
    rw [find_restrict_of_not (Bool.eq_false_iff.mpr hx), hnone]

/-- A restriction that keeps no key present leaves nothing. -/
theorem restrict_of_none {keep : κ → Bool} {t : Table κ ν} (h : ∀ k ∈ t.keys, keep k = false) :
    restrict keep t = empty := by
  refine Table.ext (List.filter_eq_nil_iff.mpr fun k hk => by simp [h k hk]) ?_
  funext x
  by_cases hx : keep x = true
  · have hnone : t.find x = none := by
      rw [← Option.not_isSome_iff_eq_none, ← t.mem_keys]
      exact fun hmem => Bool.false_ne_true ((h x hmem).symm.trans hx)
    rw [find_restrict hx, hnone]
    rfl
  · rw [find_restrict_of_not (Bool.eq_false_iff.mpr hx)]
    rfl

end Restrict

variable {keep : κ → Bool} {k : κ}

/-- Adjusting a kept key. -/
theorem restrict_adjust (h : keep k = true) (f : ν → ν) (t : Table κ ν) :
    restrict keep (adjust k f t) = adjust k f (restrict keep t) := by
  refine Table.ext rfl ?_
  funext x
  by_cases hx : keep x = true
  · rw [find_restrict hx, find_adjust, find_adjust, find_restrict hx]
  · have hne : x ≠ k := fun e => hx (by rw [e]; exact h)
    rw [find_adjust_of_ne hne, find_restrict_of_not (Bool.eq_false_iff.mpr hx),
      find_restrict_of_not (Bool.eq_false_iff.mpr hx)]

/-- Adjusting a key that is not kept. -/
theorem restrict_adjust_of_not (h : keep k = false) (f : ν → ν) (t : Table κ ν) :
    restrict keep (adjust k f t) = restrict keep t := by
  refine Table.ext rfl ?_
  funext x
  by_cases hx : keep x = true
  · have hne : x ≠ k := fun e => Bool.false_ne_true (h.symm.trans (by rw [← e]; exact hx))
    rw [find_restrict hx, find_restrict hx, find_adjust_of_ne hne]
  · rw [find_restrict_of_not (Bool.eq_false_iff.mpr hx),
      find_restrict_of_not (Bool.eq_false_iff.mpr hx)]

/-- Writing under a kept key. -/
theorem restrict_put (h : keep k = true) (v : ν) (t : Table κ ν) :
    restrict keep (put k v t) = put k v (restrict keep t) := by
  refine Table.ext ?_ ?_
  · show (if k ∈ t.keys then t.keys else t.keys ++ [k]).filter keep =
      if k ∈ t.keys.filter keep then t.keys.filter keep else t.keys.filter keep ++ [k]
    by_cases hk : k ∈ t.keys
    · rw [if_pos hk, if_pos (List.mem_filter.mpr ⟨hk, h⟩)]
    · rw [if_neg hk, if_neg fun hmem => hk (List.mem_filter.mp hmem).1, List.filter_append,
        List.filter_cons_of_pos h, List.filter_nil]
  · funext x
    by_cases hx : keep x = true
    · rw [find_restrict hx, find_put, find_put, find_restrict hx]
    · have hne : x ≠ k := fun e => hx (by rw [e]; exact h)
      rw [find_put_of_ne hne, find_restrict_of_not (Bool.eq_false_iff.mpr hx),
        find_restrict_of_not (Bool.eq_false_iff.mpr hx)]

/-- Writing under a key that is not kept. -/
theorem restrict_put_of_not (h : keep k = false) (v : ν) (t : Table κ ν) :
    restrict keep (put k v t) = restrict keep t := by
  have hk : ¬ keep k = true := by
    rw [h]
    exact Bool.false_ne_true
  refine Table.ext ?_ ?_
  · show (if k ∈ t.keys then t.keys else t.keys ++ [k]).filter keep = t.keys.filter keep
    split
    · rfl
    · rw [List.filter_append, List.filter_cons_of_neg hk, List.filter_nil, List.append_nil]
  · funext x
    by_cases hx : keep x = true
    · have hne : x ≠ k := fun e => hk (by rw [← e]; exact hx)
      rw [find_restrict hx, find_restrict hx, find_put_of_ne hne]
    · rw [find_restrict_of_not (Bool.eq_false_iff.mpr hx),
        find_restrict_of_not (Bool.eq_false_iff.mpr hx)]

/-- Erasing a kept key. -/
theorem restrict_erase (h : keep k = true) (t : Table κ ν) :
    restrict keep (erase k t) = erase k (restrict keep t) := by
  refine Table.ext ?_ ?_
  · show (t.keys.erase k).filter keep = (t.keys.filter keep).erase k
    rw [t.nodup.erase_eq_filter, (t.nodup.filter keep).erase_eq_filter, List.filter_comm]
  · funext x
    by_cases hx : keep x = true
    · rw [find_restrict hx]
      by_cases hxk : x = k
      · rw [hxk, find_erase_self, find_erase_self]
      · rw [find_erase_of_ne hxk, find_erase_of_ne hxk, find_restrict hx]
    · have hne : x ≠ k := fun e => hx (by rw [e]; exact h)
      rw [find_erase_of_ne hne, find_restrict_of_not (Bool.eq_false_iff.mpr hx),
        find_restrict_of_not (Bool.eq_false_iff.mpr hx)]

/-- Erasing a key that is not kept. -/
theorem restrict_erase_of_not (h : keep k = false) (t : Table κ ν) :
    restrict keep (erase k t) = restrict keep t := by
  have hk : ¬ keep k = true := by
    rw [h]
    exact Bool.false_ne_true
  refine Table.ext ?_ ?_
  · show (t.keys.erase k).filter keep = t.keys.filter keep
    rw [t.nodup.erase_eq_filter, List.filter_filter]
    refine List.filter_congr fun x _ => ?_
    by_cases hx : keep x = true
    · have hne : x ≠ k := fun e => hk (by rw [← e]; exact hx)
      simp [hx, hne]
    · simp [hx]
  · funext x
    by_cases hx : keep x = true
    · have hne : x ≠ k := fun e => hk (by rw [← e]; exact hx)
      rw [find_restrict hx, find_restrict hx, find_erase_of_ne hne]
    · rw [find_restrict_of_not (Bool.eq_false_iff.mpr hx),
        find_restrict_of_not (Bool.eq_false_iff.mpr hx)]

theorem restrict_ensure (h : keep k = true) (v : ν) (t : Table κ ν) :
    restrict keep (ensure k v t) = ensure k v (restrict keep t) := by
  rw [ensure, ensure, find_restrict h]
  split
  · rfl
  · exact restrict_put h v t

theorem restrict_ensure_of_not (h : keep k = false) (v : ν) (t : Table κ ν) :
    restrict keep (ensure k v t) = restrict keep t := by
  rw [ensure]
  split
  · rfl
  · exact restrict_put_of_not h v t

/-- Adopting a part of another table. -/
theorem restrict_adopt (test : κ → Bool) (old new : Table κ ν) :
    restrict keep (adopt test old new) = adopt test (restrict keep old) (restrict keep new) := by
  refine Table.ext ?_ ?_
  · rw [keys_adopt]
    show (adopt test old new).keys.filter keep = _
    rw [keys_adopt, List.filter_append]
    refine congrArg (new.keys.filter keep ++ ·) ?_
    simp only [keys_restrict, List.filter_filter]
    refine List.filter_congr fun k _ => ?_
    cases hk : keep k <;> cases ht : test k <;> simp [hk, List.mem_filter]
  · funext x
    rw [find_adopt]
    by_cases hx : keep x = true
    · rw [find_restrict hx, find_restrict hx, find_restrict hx, find_adopt]
    · have hx' := Bool.eq_false_iff.mpr hx
      rw [find_restrict_of_not hx', find_restrict_of_not hx', find_restrict_of_not hx']
      cases test x <;> rfl

/-- Adopting only keys that pass the test anyway. -/
theorem adopt_of_all {test : κ → Bool} {old : Table κ ν} (h : ∀ k ∈ old.keys, test k = true) :
    adopt test old empty = old := by
  refine Table.ext ?_ ?_
  · rw [keys_adopt, List.filter_eq_self.mpr h]
    simp
  · funext x
    rw [find_adopt]
    cases hx : old.find x with
    | none => cases test x <;> rfl
    | some v =>
        have hmem : x ∈ old.keys := (old.mem_keys x).mpr (by rw [hx]; rfl)
        rw [h x hmem]
        rfl

end KeyedTable
