import Mathlib.Logic.Basic
import Mathlib.Data.List.Basic

/-!
# Runs of a deterministic state machine

A state machine is a step function `step : σ → α → σ` applying a label to a state. This module
fixes what a run is and proves, once, the two induction rules the invariants of the development
are derived from:

* `run_invariant`: a predicate that holds initially and is preserved by every step holds after
  every run;
* `run_invariant_of_allowed`: the same for runs whose every label is allowed (by a predicate
  `ok`) in the state it is applied to, for the properties that hold only under a protocol the
  environment follows.

`Reachable step s₀` is the set of states some run from `s₀` ends in; `reachable_invariant`
restates the first rule over it.
-/

namespace MountpointS3.Foundations

variable {σ α : Type*}

/-- The state reached from `s` by applying the labels `as` in order. -/
def run (step : σ → α → σ) (s : σ) : List α → σ
  | [] => s
  | a :: as => run step (step s a) as

@[simp] theorem run_nil (step : σ → α → σ) (s : σ) : run step s [] = s := rfl

@[simp] theorem run_cons (step : σ → α → σ) (s : σ) (a : α) (as : List α) :
    run step s (a :: as) = run step (step s a) as := rfl

theorem run_append (step : σ → α → σ) (s : σ) (as bs : List α) :
    run step s (as ++ bs) = run step (run step s as) bs := by
  induction as generalizing s with
  | nil => rfl
  | cons a as ih => exact ih (step s a)

theorem run_concat (step : σ → α → σ) (s : σ) (as : List α) (a : α) :
    run step s (as ++ [a]) = step (run step s as) a := by
  rw [run_append]
  rfl

/-- Every label of `as` is allowed, by `ok`, in the state it is applied to. -/
def Allowed (step : σ → α → σ) (ok : σ → α → Prop) : σ → List α → Prop
  | _, [] => True
  | s, a :: as => ok s a ∧ Allowed step ok (step s a) as

@[simp] theorem allowed_nil (step : σ → α → σ) (ok : σ → α → Prop) (s : σ) :
    Allowed step ok s [] := trivial

@[simp] theorem allowed_cons (step : σ → α → σ) (ok : σ → α → Prop) (s : σ) (a : α)
    (as : List α) : Allowed step ok s (a :: as) ↔ ok s a ∧ Allowed step ok (step s a) as :=
  Iff.rfl

instance decidableAllowed (step : σ → α → σ) (ok : σ → α → Prop) [∀ s a, Decidable (ok s a)] :
    ∀ s as, Decidable (Allowed step ok s as)
  | _, [] => isTrue trivial
  | s, a :: as =>
    have := decidableAllowed step ok (step s a) as
    inferInstanceAs (Decidable (ok s a ∧ Allowed step ok (step s a) as))

/-- Labels allowed whatever the state: every label of the run is. -/
theorem allowed_of_forall {step : σ → α → σ} {p : α → Prop} :
    ∀ {s : σ} {as : List α}, (∀ a ∈ as, p a) → Allowed step (fun _ a => p a) s as
  | _, [], _ => trivial
  | _, a :: _, h => ⟨h a List.mem_cons_self, allowed_of_forall fun b hb => h b (List.mem_cons_of_mem a hb)⟩

theorem allowed_append (step : σ → α → σ) (ok : σ → α → Prop) (s : σ) (as bs : List α) :
    Allowed step ok s (as ++ bs) ↔ Allowed step ok s as ∧ Allowed step ok (run step s as) bs := by
  induction as generalizing s with
  | nil => simp
  | cons a as ih => simp only [List.cons_append, allowed_cons, ih, run_cons, and_assoc]

section Invariant

variable {step : σ → α → σ} {P : σ → Prop}

/-- **The invariant rule.** A predicate preserved by every step holds after every run from a
state where it holds. -/
theorem run_invariant (hstep : ∀ s a, P s → P (step s a)) :
    ∀ {s : σ} (as : List α), P s → P (run step s as)
  | _, [], h => h
  | s, a :: as, h => run_invariant hstep as (hstep s a h)

/-- **The invariant rule under a protocol.** A predicate preserved by every allowed step holds
after every allowed run from a state where it holds. -/
theorem run_invariant_of_allowed {ok : σ → α → Prop} (hstep : ∀ s a, P s → ok s a → P (step s a)) :
    ∀ {s : σ} (as : List α), P s → Allowed step ok s as → P (run step s as)
  | _, [], h, _ => h
  | s, a :: as, h, ⟨ha, has⟩ => run_invariant_of_allowed hstep as (hstep s a h ha) has

end Invariant

/-! ## Reachable states -/

/-- The states some run from `s₀` ends in. -/
def Reachable (step : σ → α → σ) (s₀ : σ) (s : σ) : Prop := ∃ as, run step s₀ as = s

theorem Reachable.init (step : σ → α → σ) (s₀ : σ) : Reachable step s₀ s₀ := ⟨[], rfl⟩

theorem Reachable.step {step : σ → α → σ} {s₀ s : σ} (h : Reachable step s₀ s) (a : α) :
    Reachable step s₀ (step s a) := by
  obtain ⟨as, rfl⟩ := h
  exact ⟨as ++ [a], run_concat step s₀ as a⟩

theorem reachable_invariant {step : σ → α → σ} {P : σ → Prop} {s₀ s : σ}
    (hstep : ∀ s a, P s → P (step s a)) (h₀ : P s₀) (h : Reachable step s₀ s) : P s := by
  obtain ⟨as, rfl⟩ := h
  exact run_invariant hstep as h₀

end MountpointS3.Foundations
