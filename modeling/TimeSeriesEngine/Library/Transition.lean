import Mathlib.Logic.Basic
import Mathlib.Data.List.Basic

/-!
# Runs of a deterministic step function

A system is a step function `σ → α → σ`; a run is the fold over a list of
actions.  The rules used everywhere:

* `run_invariant` — what every admissible step preserves holds after every run;
* `run_simulation` — a relation every admissible step preserves relates the two
  end states;
* `run_history` — the same for a relation between a state and the run that led to it;
* `run_filter` — a relation that visible steps preserve and hidden steps do not
  disturb relates a run to the run of its visible actions.
-/

namespace Transition

variable {σ τ α : Type}

/-- The state after a list of actions. -/
def run (step : σ → α → σ) (s : σ) (actions : List α) : σ := actions.foldl step s

@[simp] theorem run_nil (step : σ → α → σ) (s : σ) : run step s [] = s := rfl

@[simp] theorem run_cons (step : σ → α → σ) (s : σ) (a : α) (as : List α) :
    run step s (a :: as) = run step (step s a) as := rfl

theorem run_append (step : σ → α → σ) (s : σ) (as bs : List α) :
    run step s (as ++ bs) = run step (run step s as) bs := List.foldl_append

/-- What every admissible step preserves holds after every admissible run. -/
theorem run_invariant {step : σ → α → σ} {Inv : σ → Prop} {ok : α → Prop}
    (hstep : ∀ s a, ok a → Inv s → Inv (step s a)) {s : σ} (hs : Inv s) {actions : List α}
    (hok : ∀ a ∈ actions, ok a) : Inv (run step s actions) := by
  induction actions generalizing s with
  | nil => exact hs
  | cons a as ih =>
      exact ih (hstep s a (hok a (by simp)) hs) fun b hb => hok b (List.mem_cons_of_mem _ hb)

/-- What a step preserves between the state and the actions that led to it. -/
theorem run_history {step : σ → α → σ} {s : σ} {Inv : List α → σ → Prop} (hs : Inv [] s)
    (hstep : ∀ before a, Inv before (run step s before) →
      Inv (before ++ [a]) (step (run step s before) a)) (actions : List α) :
    Inv actions (run step s actions) := by
  suffices hmore : ∀ before, Inv before (run step s before) →
      Inv (before ++ actions) (run step s (before ++ actions)) from hmore [] hs
  induction actions with
  | nil =>
      intro before hbefore
      rwa [List.append_nil]
  | cons a as ih =>
      intro before hbefore
      have hnext := ih (before ++ [a]) (by
        rw [run_append]
        exact hstep before a hbefore)
      rwa [List.append_assoc] at hnext

/-- A relation every admissible step preserves relates the ends of two runs. -/
theorem run_simulation {step : σ → α → σ} {step' : τ → α → τ} {R : σ → τ → Prop}
    {ok : α → Prop} (hstep : ∀ s t a, ok a → R s t → R (step s a) (step' t a)) {s : σ} {t : τ}
    (hst : R s t) {actions : List α} (hok : ∀ a ∈ actions, ok a) :
    R (run step s actions) (run step' t actions) := by
  induction actions generalizing s t with
  | nil => exact hst
  | cons a as ih =>
      exact ih (hstep s t a (hok a (by simp)) hst) fun b hb => hok b (List.mem_cons_of_mem _ hb)

/-- Every step of a run is admissible in the state it starts from. -/
def Admissible (step : σ → α → σ) (ok : σ → α → Prop) : σ → List α → Prop
  | _, [] => True
  | s, a :: as => ok s a ∧ Admissible step ok (step s a) as

instance decidableAdmissible {step : σ → α → σ} {ok : σ → α → Prop}
    [∀ s a, Decidable (ok s a)] : (s : σ) → (actions : List α) → Decidable (Admissible step ok s actions)
  | _, [] => isTrue trivial
  | s, a :: as =>
      have : Decidable (Admissible step ok (step s a) as) := decidableAdmissible (step s a) as
      inferInstanceAs (Decidable (ok s a ∧ Admissible step ok (step s a) as))

theorem Admissible.and {step : σ → α → σ} {ok ok' : σ → α → Prop} {s : σ} {actions : List α}
    (h : Admissible step ok s actions) (h' : Admissible step ok' s actions) :
    Admissible step (fun s a => ok s a ∧ ok' s a) s actions := by
  induction actions generalizing s with
  | nil => exact trivial
  | cons a as ih => exact ⟨⟨h.1, h'.1⟩, ih h.2 h'.2⟩

theorem Admissible.mono {step : σ → α → σ} {ok ok' : σ → α → Prop} {s : σ} {actions : List α}
    (h : Admissible step ok s actions) (himp : ∀ s a, ok s a → ok' s a) :
    Admissible step ok' s actions := by
  induction actions generalizing s with
  | nil => exact trivial
  | cons a as ih => exact ⟨himp s a h.1, ih h.2⟩

theorem admissible_append {step : σ → α → σ} {ok : σ → α → Prop} {s : σ} {as bs : List α} :
    Admissible step ok s (as ++ bs) ↔
      Admissible step ok s as ∧ Admissible step ok (run step s as) bs := by
  induction as generalizing s with
  | nil => exact (iff_of_eq (true_and _)).symm
  | cons a as ih =>
      show ok s a ∧ Admissible step ok (step s a) (as ++ bs) ↔ _
      rw [ih, ← and_assoc]
      rfl

/-- A condition on the actions alone. -/
theorem admissible_of_forall {step : σ → α → σ} {carried : α → Prop} {s : σ} {actions : List α}
    (h : ∀ a ∈ actions, carried a) : Admissible step (fun _ a => carried a) s actions := by
  induction actions generalizing s with
  | nil => exact trivial
  | cons a as ih => exact ⟨h a (by simp), ih fun b hb => h b (List.mem_cons_of_mem _ hb)⟩

/-- What every admissible step preserves, where admissible may look at the state. -/
theorem admissible_invariant {step : σ → α → σ} {Inv : σ → Prop} {ok : σ → α → Prop}
    (hstep : ∀ s a, ok s a → Inv s → Inv (step s a)) {s : σ} (hs : Inv s) {actions : List α}
    (hok : Admissible step ok s actions) : Inv (run step s actions) := by
  induction actions generalizing s with
  | nil => exact hs
  | cons a as ih => exact ih (hstep s a hok.1 hs) hok.2

/-- **Unwinding.**  Leaving the hidden actions out of a run does not change what
    the relation sees of its end. -/
theorem run_filter {step : σ → α → σ} {step' : τ → α → τ} {R : σ → τ → Prop}
    {visible : α → Bool} {ok : σ → α → Prop}
    (hvisible : ∀ s t a, visible a = true → ok s a → R s t → R (step s a) (step' t a))
    (hhidden : ∀ s t a, visible a = false → ok s a → R s t → R (step s a) t) {s : σ} {t : τ}
    (hst : R s t) {actions : List α} (hok : Admissible step ok s actions) :
    R (run step s actions) (run step' t (actions.filter visible)) := by
  induction actions generalizing s t with
  | nil => exact hst
  | cons a as ih =>
      obtain ⟨ha, has⟩ := hok
      by_cases hv : visible a = true
      · rw [List.filter_cons_of_pos hv]
        exact ih (hvisible s t a hv ha hst) has
      · rw [List.filter_cons_of_neg hv]
        exact ih (hhidden s t a (Bool.eq_false_iff.mpr hv) ha hst) has

end Transition
