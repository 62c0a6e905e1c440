import Mathlib.Order.Defs.Unbundled
import Mathlib.Data.List.TakeWhile

/-!
# A monotone deque — the extreme entry of a sliding window

A window is a list of entries, a key and a value each, oldest first.  The deque
keeps the entries no later entry `beats`; a new entry drops the ones it beats
from the back, an expired entry leaves at the front if it is still there.

* `push_survivors` — pushing keeps the deque that of the window;
* `popFront_survivors` — so does expiring the oldest entry;
* `survivors_head` — the front of the deque beats the whole window.
-/

namespace MonotoneDeque

variable {κ ν : Type} (beats : ν → ν → Prop) [DecidableRel beats]

/-- Drop the entries at the back that the new one beats, then push it. -/
def push (entry : κ × ν) (deque : List (κ × ν)) : List (κ × ν) :=
  (deque.reverse.dropWhile fun e => decide (beats entry.2 e.2)).reverse ++ [entry]

/-- The entries of a window that no later entry beats. -/
def survivors : List (κ × ν) → List (κ × ν)
  | [] => []
  | e :: es =>
      if es.any fun later => decide (beats later.2 e.2) then survivors es else e :: survivors es

/-- Drop the front entry if it carries this key. -/
def popFront [DecidableEq κ] (key : κ) : List (κ × ν) → List (κ × ν)
  | [] => []
  | e :: es => if e.1 = key then es else e :: es

/-- A survivor is in the window. -/
theorem mem_of_mem_survivors {e : κ × ν} {window : List (κ × ν)}
    (h : e ∈ survivors beats window) : e ∈ window := by
  induction window with
  | nil => exact h
  | cons x xs ih =>
      rw [survivors] at h
      split at h
      · exact List.mem_cons_of_mem _ (ih h)
      · rcases List.mem_cons.mp h with rfl | h
        · exact List.mem_cons_self
        · exact List.mem_cons_of_mem _ (ih h)

/-- An entry that beats everything left in the deque empties it. -/
theorem push_of_beats {entry : κ × ν} {deque : List (κ × ν)}
    (h : ∀ e ∈ deque, beats entry.2 e.2) : push beats entry deque = [entry] := by
  rw [push, List.dropWhile_eq_nil_iff.mpr fun e he =>
    decide_eq_true (h e (List.mem_reverse.mp he))]
  rfl

/-- An entry the new one does not beat stays, and so does everything in front. -/
theorem push_cons {entry e : κ × ν} (h : ¬ beats entry.2 e.2) (deque : List (κ × ν)) :
    push beats entry (e :: deque) = e :: push beats entry deque := by
  rw [push, push, List.reverse_cons, List.dropWhile_append]
  split
  · rename_i hnil
    rw [List.isEmpty_iff.mp hnil, List.dropWhile_cons_of_neg (by simpa using h)]
    rfl
  · rw [List.reverse_append]
    rfl

variable [Std.Total beats] [IsTrans ν beats]

/-- **Append.**  Pushing the newest entry keeps the deque that of the window. -/
theorem push_survivors (entry : κ × ν) (window : List (κ × ν)) :
    push beats entry (survivors beats window) = survivors beats (window ++ [entry]) := by
  induction window with
  | nil => rfl
  | cons e es ih =>
      by_cases hes : es.any (fun later => decide (beats later.2 e.2)) = true
      · rw [List.cons_append, survivors, survivors, if_pos hes,
          if_pos (by rw [List.any_append, hes, Bool.true_or]), ih]
      · have hkeep : ∀ later ∈ es, beats e.2 later.2 := fun later hlater =>
          (Std.Total.total (r := beats) e.2 later.2).resolve_right fun hb =>
            hes (List.any_eq_true.mpr ⟨later, hlater, decide_eq_true hb⟩)
        by_cases hnew : beats entry.2 e.2
        · -- the new entry beats `e`, hence everything `e` beats
          have hall : ∀ x ∈ survivors beats es, beats entry.2 x.2 := fun x hx =>
            IsTrans.trans _ _ _ hnew (hkeep x (mem_of_mem_survivors beats hx))
          rw [List.cons_append, survivors, survivors, if_neg hes,
            if_pos (by rw [List.any_append]; simp [hnew]), ← ih, push_of_beats beats hall,
            push_of_beats beats fun x hx => ?_]
          rcases List.mem_cons.mp hx with rfl | hx
          · exact hnew
          · exact hall x hx
        · rw [List.cons_append, survivors, survivors, if_neg hes,
            if_neg (by rw [List.any_append]; simpa [hnew] using hes), push_cons beats hnew, ih]

omit [Std.Total beats] [IsTrans ν beats] in
/-- **Expiry.**  When the oldest entry expires, popping its key from the front
    leaves the deque of the rest of the window. -/
theorem popFront_survivors [DecidableEq κ] {entry : κ × ν} {window : List (κ × ν)}
    (h : ∀ e ∈ window, e.1 ≠ entry.1) :
    popFront entry.1 (survivors beats (entry :: window)) = survivors beats window := by
  rw [survivors]
  split
  · cases hw : survivors beats window with
    | nil => rfl
    | cons e es =>
        have hmem : e ∈ window := mem_of_mem_survivors beats (by rw [hw]; exact List.mem_cons_self)
        exact if_neg (h e hmem)
  · exact if_pos rfl

/-- The front of the deque is an entry of the window that beats every other. -/
theorem survivors_head {window : List (κ × ν)} (h : window ≠ []) :
    ∃ e rest, survivors beats window = e :: rest ∧ e ∈ window ∧ ∀ x ∈ window, beats e.2 x.2 := by
  induction window with
  | nil => exact absurd rfl h
  | cons e es ih =>
      rw [survivors]
      by_cases hes : es.any (fun later => decide (beats later.2 e.2)) = true
      · obtain ⟨later, hlater, hb⟩ := List.any_eq_true.mp hes
        obtain ⟨x, rest, hx, hmem, hall⟩ := ih (List.ne_nil_of_mem hlater)
        rw [if_pos hes]
        refine ⟨x, rest, hx, List.mem_cons_of_mem _ hmem, fun y hy => ?_⟩
        rcases List.mem_cons.mp hy with rfl | hy
        · exact IsTrans.trans _ _ _ (hall later hlater) (of_decide_eq_true hb)
        · exact hall y hy
      · rw [if_neg hes]
        refine ⟨e, _, rfl, List.mem_cons_self, fun y hy => ?_⟩
        rcases List.mem_cons.mp hy with rfl | hy
        · exact (Std.Total.total (r := beats) y.2 y.2).elim id id
        · exact (Std.Total.total (r := beats) e.2 y.2).resolve_right fun hb =>
            hes (List.any_eq_true.mpr ⟨y, hy, decide_eq_true hb⟩)

end MonotoneDeque
