import Mathlib.Data.List.Flatten
import Mathlib.Data.List.Range

/-!
# Jobs that are done in order

Jobs are numbered in the order of their admission, and each leaves some work behind.
`DoneInOrder` says of a content that it is the work of the jobs up to some number, and that
these are the jobs that are done.  A job that leaves nothing is never in the way.

* `DoneInOrder.admit`, `DoneInOrder.finish` — a job comes in, a job is done;
* `DoneInOrder.later` — a later content goes on where an earlier one ends;
* `DoneInOrder.all` — when all are done, the content is the work of all, in order.
-/

namespace InOrder

variable {α β : Type}

theorem flatMap_eq_nil {f : β → List α} {l : List β} (h : ∀ x ∈ l, f x = []) :
    l.flatMap f = [] :=
  List.flatMap_eq_nil_iff.mpr h

/-- Only one element of a list contributes. -/
theorem flatMap_single {f : β → List α} {l : List β} (hnodup : l.Nodup) {x : β} (hx : x ∈ l)
    (hothers : ∀ y ∈ l, y ≠ x → f y = []) : l.flatMap f = f x := by
  induction l with
  | nil => cases hx
  | cons y l ih =>
      obtain ⟨hy, hnodup⟩ := List.nodup_cons.mp hnodup
      rw [List.flatMap_cons]
      by_cases hxy : x = y
      · subst hxy
        rw [flatMap_eq_nil fun z hz => hothers z (List.mem_cons_of_mem _ hz) fun e => hy (e ▸ hz),
          List.append_nil]
      · rw [hothers y List.mem_cons_self (Ne.symm hxy), List.nil_append]
        exact ih hnodup ((List.mem_cons.mp hx).resolve_left hxy) fun z hz =>
          hothers z (List.mem_cons_of_mem _ hz)

/-- Jobs that leave nothing do not show. -/
theorem range_flatMap_extend {work : Nat → List α} {n m : Nat} (hle : n ≤ m)
    (hnothing : ∀ t, n ≤ t → t < m → work t = []) :
    (List.range m).flatMap work = (List.range n).flatMap work := by
  obtain ⟨k, rfl⟩ := Nat.exists_eq_add_of_le hle
  have hrest : ((List.range k).map fun i => n + i).flatMap work = [] := by
    refine flatMap_eq_nil fun t ht => ?_
    obtain ⟨i, hi, rfl⟩ := List.mem_map.mp ht
    exact hnothing _ (Nat.le_add_right n i) (Nat.add_lt_add_left (List.mem_range.mp hi) n)
  rw [List.range_add, List.flatMap_append, hrest, List.append_nil]

/-- The content is the work of the jobs up to some number, and of those that leave any
    these are the ones done. -/
def DoneInOrder (work : Nat → List α) (done : Nat → Prop) (total : Nat) (content : List α) : Prop :=
  ∃ n ≤ total, content = (List.range n).flatMap work ∧ (∀ t < n, work t ≠ [] → done t) ∧
    ∀ t, n ≤ t → t < total → work t ≠ [] → ¬ done t

variable {work : Nat → List α} {done : Nat → Prop} {total : Nat} {content : List α}

theorem doneInOrder_nil (work : Nat → List α) (done : Nat → Prop) : DoneInOrder work done 0 [] :=
  ⟨0, le_refl 0, rfl, fun _ h => absurd h (Nat.not_lt_zero _), fun _ _ h =>
    absurd h (Nat.not_lt_zero _)⟩

/-- The order depends on the work and on what has been done. -/
theorem DoneInOrder.congr (h : DoneInOrder work done total content) {work' : Nat → List α}
    {done' : Nat → Prop} (hwork : ∀ t < total, work' t = work t)
    (hdone : ∀ t < total, work t ≠ [] → (done' t ↔ done t)) :
    DoneInOrder work' done' total content := by
  obtain ⟨n, hn, rfl, hbefore, hbehind⟩ := h
  refine ⟨n, hn, ?_, fun t ht hsome => ?_, fun t ht htotal hsome => ?_⟩
  · exact List.flatMap_congr fun t ht => (hwork t ((List.mem_range.mp ht).trans_le hn)).symm
  · rw [hwork t (ht.trans_le hn)] at hsome
    exact (hdone t (ht.trans_le hn) hsome).mpr (hbefore t ht hsome)
  · rw [hwork t htotal] at hsome
    exact fun hnow => hbehind t ht htotal hsome ((hdone t htotal hsome).mp hnow)

/-- A job comes in. -/
theorem DoneInOrder.admit (h : DoneInOrder work done total content)
    (hopen : work total ≠ [] → ¬ done total) : DoneInOrder work done (total + 1) content := by
  obtain ⟨n, hn, hcontent, hbefore, hbehind⟩ := h
  refine ⟨n, Nat.le_succ_of_le hn, hcontent, hbefore, fun t ht htotal hsome => ?_⟩
  rcases Nat.lt_succ_iff_lt_or_eq.mp htotal with hlt | rfl
  · exact hbehind t ht hlt hsome
  · exact hopen hsome

/-- A job is done, after all the earlier ones. -/
theorem DoneInOrder.finish (h : DoneInOrder work done total content) {t : Nat} (ht : t < total)
    (hopen : ¬ done t) (hearlier : ∀ a < t, work a ≠ [] → done a) {done' : Nat → Prop}
    (hdone : ∀ a < total, work a ≠ [] → (done' a ↔ done a ∨ a = t)) :
    DoneInOrder work done' total (content ++ work t) := by
  by_cases hnothing : work t = []
  · rw [hnothing, List.append_nil]
    refine h.congr (fun _ _ => rfl) fun a ha hsome => (hdone a ha hsome).trans ?_
    exact or_iff_left fun heq => hsome (heq ▸ hnothing)
  · obtain ⟨n, hn, rfl, hbefore, hbehind⟩ := h
    have hle : n ≤ t := not_lt.mp fun hlt => hopen (hbefore t hlt hnothing)
    refine ⟨t + 1, ht, ?_, fun a ha hsome => ?_, fun a ha htotal hsome hnow => ?_⟩
    · rw [List.range_succ, List.flatMap_append, List.flatMap_singleton]
      refine congrArg (· ++ work t) (range_flatMap_extend hle fun a ha hlt => ?_).symm
      by_contra hsome
      exact hbehind a ha (hlt.trans ht) hsome (hearlier a hlt hsome)
    · rw [hdone a (by omega) hsome]
      exact (Nat.lt_succ_iff_lt_or_eq.mp ha).imp_left fun hlt => hearlier a hlt hsome
    · rcases (hdone a htotal hsome).mp hnow with hold | heq
      · exact hbehind a (by omega) htotal hsome hold
      · omega

/-- Later on, when what was done still is: the later content goes on where the earlier ends,
    and the earlier has everything that was done. -/
theorem DoneInOrder.later (h : DoneInOrder work done total content) {work' : Nat → List α}
    {done' : Nat → Prop} {total' : Nat} {content' : List α}
    (h' : DoneInOrder work' done' total' content') (htotal : total ≤ total')
    (hwork : ∀ t < total, work' t = work t)
    (hdone : ∀ t < total, work t ≠ [] → done t → done' t) :
    ∃ n n', n ≤ n' ∧ n' ≤ total' ∧ content = (List.range n).flatMap work' ∧
      content' = (List.range n').flatMap work' ∧
      ∀ t < total, work t ≠ [] → done t → t < n := by
  obtain ⟨n, hn, rfl, hbefore, hbehind⟩ := h
  obtain ⟨m, hm, rfl, -, hbehind'⟩ := h'
  have hcontent : (List.range n).flatMap work = (List.range n).flatMap work' :=
    List.flatMap_congr fun t ht => (hwork t ((List.mem_range.mp ht).trans_le hn)).symm
  have hkept : ∀ t < total, work t ≠ [] → done t → t < n := by
    intro t ht hsome hnow
    by_contra hge
    exact hbehind t (not_lt.mp hge) ht hsome hnow
  rcases Nat.le_total n m with hle | hle
  · exact ⟨n, m, hle, hm, hcontent, rfl, hkept⟩
  · -- the jobs between the two numbers leave nothing
    refine ⟨n, n, le_refl n, hn.trans htotal, hcontent, (range_flatMap_extend hle ?_).symm, hkept⟩
    intro t hmt htn
    have ht : t < total := htn.trans_le hn
    rw [hwork t ht]
    by_contra hsome
    have hsome' : work' t ≠ [] := by
      rw [hwork t ht]
      exact hsome
    exact hbehind' t hmt (ht.trans_le htotal) hsome' (hdone t ht hsome (hbefore t htn hsome))

/-- All jobs are done. -/
theorem DoneInOrder.all (h : DoneInOrder work done total content)
    (hall : ∀ t < total, work t ≠ [] → done t) : content = (List.range total).flatMap work := by
  obtain ⟨n, hn, rfl, -, hbehind⟩ := h
  refine (range_flatMap_extend hn fun t ht htotal => ?_).symm
  by_contra hsome
  exact hbehind t ht htotal hsome (hall t htotal hsome)

end InOrder
