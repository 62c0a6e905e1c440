import Mathlib.Data.List.Nodup
import Mathlib.Data.List.Count

/-!
# Event logs

A log grows at its end.  `Licensed P log` says that every event of the log was
permitted by what stood in front of it; it is kept by appending permitted events
(`licensed_snoc`), and so it is an invariant that one step at a time can establish.

The counting rules are for invariants of the form "as many of these as of those",
where a step changes one of them.
-/

namespace EventLog

variable {α : Type}

/-- Every event of the log satisfies `P` with the events in front of it. -/
def Licensed (P : α → List α → Prop) (log : List α) : Prop :=
  ∀ before x after, log = before ++ x :: after → P x before

theorem licensed_nil (P : α → List α → Prop) : Licensed P [] := by
  intro before x after h
  cases before with
  | nil => cases h
  | cons y ys => cases h

/-- A licensed log and an event its past allows. -/
theorem licensed_snoc {P : α → List α → Prop} {log : List α} {x : α} (h : Licensed P log)
    (hx : P x log) : Licensed P (log ++ [x]) := by
  intro before y after heq
  rcases List.eq_nil_or_concat after with rfl | ⟨rest, z, rfl⟩
  · -- the event is the new one
    obtain ⟨rfl, hxy⟩ := List.append_inj' heq rfl
    cases hxy
    exact hx
  · rw [List.concat_eq_append, ← List.cons_append, ← List.append_assoc] at heq
    exact h before y rest (List.append_inj' heq rfl).1

/-- What stands in a log licenses nothing else when the licence is only read for
    the events of the log. -/
theorem Licensed.mono {P Q : α → List α → Prop} {log : List α} (h : Licensed P log)
    (hPQ : ∀ x ∈ log, ∀ before, P x before → Q x before) : Licensed Q log := by
  intro before x after heq
  refine hPQ x ?_ before (h before x after heq)
  rw [heq]
  exact List.mem_append_right _ (List.mem_cons_self ..)

/-! ## Counting -/

/-- A count in which one element changes its answer. -/
theorem countP_change {p q : α → Bool} {a : α} {l : List α} (hnodup : l.Nodup) (ha : a ∈ l)
    (hsame : ∀ b ∈ l, b ≠ a → q b = p b) :
    l.countP q + (if p a = true then 1 else 0) = l.countP p + if q a = true then 1 else 0 := by
  induction l with
  | nil => cases ha
  | cons b bs ih =>
      obtain ⟨hb, hbs⟩ := List.nodup_cons.mp hnodup
      rw [List.countP_cons, List.countP_cons]
      by_cases hab : b = a
      · subst hab
        have hrest : bs.countP q = bs.countP p := by
          refine List.countP_congr fun c hc => ?_
          rw [hsame c (List.mem_cons_of_mem _ hc) fun heq => hb (heq ▸ hc)]
        rw [hrest]
        omega
      · have hmem : a ∈ bs := (List.mem_cons.mp ha).resolve_left fun heq => hab heq.symm
        have hcount := ih hbs hmem fun c hc => hsame c (List.mem_cons_of_mem _ hc)
        rw [hsame b (List.mem_cons_self ..) hab]
        omega

end EventLog
