import Mathlib.Logic.Basic
import Mathlib.Order.Defs.Unbundled

/-!
# Programs on a state that may fail, and their triples

A program of `Prog σ ε α` runs on a state of `σ` and returns a value of `α` or fails with an
error of `ε`. It is `ExceptT ε (StateM σ)`: a failure keeps the state reached, as a method on
`&mut self` that returns early with `?` keeps what it changed before.

`RelTriple R P x Q` says that from a state satisfying `P`, `x` ends with a result and a state
satisfying `Q`, related to the first by `R`.

* `exec_bind`, `exec_tryCatch` and the `@[simp]` lemmas: how a program runs, and
  `exec_bind_of_ok`, `exec_bind_of_error` to run a composite one forward;
* `exec_bind_eq`, `exec_tryCatch_eq`, `exec_map_eq`: what a run of a composite program went
  through, to take it apart backward;
* `ReadOnly` programs, which leave the state as they found it, and `ReadOnly.bind_eq`,
  `ReadOnly.of_bind` to step over them;
* `RelTriple.tryCatch`, `RelTriple.map`, `RelTriple.mono`: the rules of composition and
  consequence.
-/

namespace MountpointS3.Foundations

/-- Programs on `σ` returning `α` or failing with `ε`, keeping the state on failure. -/
abbrev Prog (σ ε α : Type) := ExceptT ε (StateM σ) α

namespace Prog

variable {σ ε α β : Type}

/-- Run a program from a state. -/
def exec (x : Prog σ ε α) (s : σ) : Except ε α × σ := x.run.run s

/-- An `Except` value as a program that does not touch the state. -/
def fromExcept : Except ε α → Prog σ ε α
  | .ok a => pure a
  | .error e => throw e

@[simp] theorem exec_pure (a : α) (s : σ) : (pure a : Prog σ ε α).exec s = (.ok a, s) := rfl

@[simp] theorem exec_throw (e : ε) (s : σ) : (throw e : Prog σ ε α).exec s = (.error e, s) := rfl

@[simp] theorem exec_get (s : σ) : (get : Prog σ ε σ).exec s = (.ok s, s) := rfl

@[simp] theorem exec_getThe (s : σ) : (getThe σ : Prog σ ε σ).exec s = (.ok s, s) := rfl

@[simp] theorem exec_modify (f : σ → σ) (s : σ) :
    (modify f : Prog σ ε PUnit).exec s = (.ok ⟨⟩, f s) := rfl

@[simp] theorem exec_modifyGet (f : σ → α × σ) (s : σ) :
    (modifyGet f : Prog σ ε α).exec s = (.ok (f s).1, (f s).2) := rfl

@[simp] theorem exec_fromExcept (r : Except ε α) (s : σ) :
    (fromExcept r : Prog σ ε α).exec s = (r, s) := by
  cases r <;> rfl

theorem exec_bind (x : Prog σ ε α) (f : α → Prog σ ε β) (s : σ) :
    (x >>= f).exec s =
      match x.exec s with
      | (.ok a, s') => (f a).exec s'
      | (.error e, s') => (.error e, s') := by
  simp only [exec, bind, ExceptT.bind, ExceptT.run, ExceptT.mk, StateT.run, StateT.bind,
    ExceptT.bindCont]
  rcases x s with ⟨r, s'⟩
  cases r <;> rfl

theorem exec_bind_of_ok {x : Prog σ ε α} {f : α → Prog σ ε β} {s s₁ : σ} {a : α}
    (h : x.exec s = (.ok a, s₁)) : (x >>= f).exec s = (f a).exec s₁ := by
  rw [exec_bind, h]

theorem exec_bind_of_error {x : Prog σ ε α} {f : α → Prog σ ε β} {s s₁ : σ} {e : ε}
    (h : x.exec s = (.error e, s₁)) : (x >>= f).exec s = (.error e, s₁) := by
  rw [exec_bind, h]

@[simp] theorem exec_modify_bind (g : σ → σ) (f : PUnit → Prog σ ε β) (s : σ) :
    (modify g >>= f).exec s = (f ⟨⟩).exec (g s) := by
  rw [exec_bind, exec_modify]

theorem exec_map (g : α → β) (x : Prog σ ε α) (s : σ) :
    (g <$> x).exec s = ((x.exec s).1.map g, (x.exec s).2) := by
  simp only [exec, Functor.map, ExceptT.map, ExceptT.run, ExceptT.mk, StateT.run, bind,
    StateT.bind]
  rcases x s with ⟨r, s'⟩
  cases r <;> rfl

theorem exec_tryCatch (x : Prog σ ε α) (h : ε → Prog σ ε α) (s : σ) :
    (tryCatch x h).exec s =
      match x.exec s with
      | (.ok a, s') => (.ok a, s')
      | (.error e, s') => (h e).exec s' := by
  change (ExceptT.tryCatch x h).run.run s = _
  simp only [exec, ExceptT.tryCatch, ExceptT.run, ExceptT.mk, StateT.run, bind, StateT.bind]
  rcases x s with ⟨r, s'⟩
  cases r <;> rfl

/-! ### Inversion: what a run of a composite program went through -/

theorem exec_bind_eq {x : Prog σ ε α} {f : α → Prog σ ε β} {s s' : σ} {r : Except ε β}
    (h : (x >>= f).exec s = (r, s')) :
    (∃ a s₁, x.exec s = (.ok a, s₁) ∧ (f a).exec s₁ = (r, s')) ∨
      (∃ e, x.exec s = (.error e, s') ∧ r = .error e) := by
  rw [exec_bind] at h
  revert h
  rcases x.exec s with ⟨r₁, s₁⟩
  cases r₁ with
  | ok a => exact fun h => .inl ⟨a, s₁, rfl, h⟩
  | error e =>
    intro h
    cases h
    exact .inr ⟨e, rfl, rfl⟩

theorem exec_tryCatch_eq {x : Prog σ ε α} {h : ε → Prog σ ε α} {s s' : σ} {r : Except ε α}
    (hx : (tryCatch x h).exec s = (r, s')) :
    (∃ a, x.exec s = (.ok a, s') ∧ r = .ok a) ∨
      (∃ e s₁, x.exec s = (.error e, s₁) ∧ (h e).exec s₁ = (r, s')) := by
  rw [exec_tryCatch] at hx
  revert hx
  rcases x.exec s with ⟨r₁, s₁⟩
  cases r₁ with
  | ok a =>
    intro hx
    cases hx
    exact .inl ⟨a, rfl, rfl⟩
  | error e => exact fun hx => .inr ⟨e, s₁, rfl, hx⟩

theorem exec_map_eq {x : Prog σ ε α} {g : α → β} {s s' : σ} {r : Except ε β}
    (h : (g <$> x).exec s = (r, s')) : ∃ r₁, x.exec s = (r₁, s') ∧ r = r₁.map g := by
  rw [exec_map] at h
  exact ⟨(x.exec s).1, by rw [← (Prod.mk.inj h).2], (Prod.mk.inj h).1.symm⟩

/-! ### Programs that only read the state -/

/-- `x` leaves the state as it found it. -/
def ReadOnly (x : Prog σ ε α) : Prop := ∀ s, (x.exec s).2 = s

theorem ReadOnly.pure (a : α) : ReadOnly (pure a : Prog σ ε α) := fun _ => rfl

theorem ReadOnly.throw (e : ε) : ReadOnly (throw e : Prog σ ε α) := fun _ => rfl

theorem ReadOnly.getThe : ReadOnly (getThe σ : Prog σ ε σ) := fun _ => rfl

theorem ReadOnly.fromExcept (r : Except ε α) : ReadOnly (fromExcept r : Prog σ ε α) := by
  intro s
  simp

theorem ReadOnly.bind {x : Prog σ ε α} {f : α → Prog σ ε β} (hx : ReadOnly x)
    (hf : ∀ a, ReadOnly (f a)) : ReadOnly (x >>= f) := by
  intro s
  rw [exec_bind]
  have := hx s
  revert this
  rcases x.exec s with ⟨r, s'⟩
  rintro rfl
  cases r with
  | ok a => exact hf a _
  | error e => rfl

theorem ReadOnly.eq {x : Prog σ ε α} (hx : ReadOnly x) {s s' : σ} {r : Except ε α}
    (h : x.exec s = (r, s')) : s' = s := by
  have := hx s
  rwa [h] at this

/-- A read-only program first: it fails where it started, or goes on from there. -/
theorem ReadOnly.bind_eq {x : Prog σ ε α} {f : α → Prog σ ε β} (hx : ReadOnly x) {s s' : σ}
    {r : Except ε β} (h : (x >>= f).exec s = (r, s')) :
    (∃ a, x.exec s = (.ok a, s) ∧ (f a).exec s = (r, s')) ∨ (s' = s ∧ ∃ e, r = .error e) := by
  obtain ⟨a, s₁, h₁, h₂⟩ | ⟨e, h₁, rfl⟩ := exec_bind_eq h
  · obtain rfl := hx.eq h₁
    exact .inl ⟨a, h₁, h₂⟩
  · exact .inr ⟨hx.eq h₁, e, rfl⟩

theorem ReadOnly.map {x : Prog σ ε α} (hx : ReadOnly x) (g : α → β) : ReadOnly (g <$> x) := fun s => by
  rw [exec_map]
  exact hx s

theorem ReadOnly.mapM {f : β → Prog σ ε α} (hf : ∀ b, ReadOnly (f b)) :
    ∀ l : List β, ReadOnly (l.mapM f)
  | [] => ReadOnly.pure []
  | b :: l => by
    rw [List.mapM_cons]
    exact ReadOnly.bind (hf b) fun _ => ReadOnly.bind (ReadOnly.mapM hf l) fun _ => ReadOnly.pure _

/-- A read-only continuation ends where the first program did. -/
theorem ReadOnly.of_bind {x : Prog σ ε α} {f : α → Prog σ ε β} (hf : ∀ a, ReadOnly (f a))
    {P : σ → Prop} {s s' : σ} {r : Except ε β} (hx : ∀ r₁ s₁, x.exec s = (r₁, s₁) → P s₁)
    (h : (x >>= f).exec s = (r, s')) : P s' := by
  obtain ⟨a, s₁, h₁, h₂⟩ | ⟨e, h₁, -⟩ := exec_bind_eq h
  · rw [(hf a).eq h₂]
    exact hx _ _ h₁
  · exact hx _ _ h₁

end Prog

/-! ## Triples with a guarantee -/

open Prog

variable {σ ε α β : Type}

/-- From a state satisfying `P`, `x` ends with a result and a state satisfying `Q`, related to the
first by `R`: `R` is what `x` may change, a guarantee in the sense of rely-guarantee reasoning. -/
def RelTriple (R : σ → σ → Prop) (P : σ → Prop) (x : Prog σ ε α) (Q : Except ε α → σ → Prop) :
    Prop :=
  ∀ s, P s → R s (x.exec s).2 ∧ Q (x.exec s).1 (x.exec s).2

namespace RelTriple

variable {R : σ → σ → Prop} {P P' : σ → Prop} {Q Q' : Except ε α → σ → Prop}

theorem mono {x : Prog σ ε α} (h : RelTriple R P x Q) (hP : ∀ s, P' s → P s)
    (hQ : ∀ r s, Q r s → Q' r s) : RelTriple R P' x Q' := fun s hs =>
  let ⟨hr, hq⟩ := h s (hP s hs)
  ⟨hr, hQ _ _ hq⟩

/-- A triple proved run by run. -/
theorem of_exec {x : Prog σ ε α}
    (h : ∀ s, P s → ∀ r s', x.exec s = (r, s') → R s s' ∧ Q r s') : RelTriple R P x Q :=
  fun s hs => h s hs _ _ rfl

/-- What a triple says of one run. -/
theorem apply {x : Prog σ ε α} (h : RelTriple R P x Q) {s s' : σ} {r : Except ε α} (hs : P s)
    (hx : x.exec s = (r, s')) : R s s' ∧ Q r s' := by
  have := h s hs
  rwa [hx] at this

theorem pure [Std.Refl R] (a : α) (h : ∀ s, P s → Q (.ok a) s) :
    RelTriple R P (pure a : Prog σ ε α) Q :=
  fun s hs => ⟨Std.Refl.refl s, h s hs⟩

/-- **Catching**: the handler runs from the state and error `x` failed with. -/
theorem tryCatch [IsTrans σ R] {x : Prog σ ε α} {h : ε → Prog σ ε α} {Q₁ : Except ε α → σ → Prop}
    (hx : RelTriple R P x Q₁) (hh : ∀ e, RelTriple R (Q₁ (.error e)) (h e) Q)
    (ho : ∀ a s, Q₁ (.ok a) s → Q (.ok a) s) : RelTriple R P (tryCatch x h) Q := by
  intro s hs
  obtain ⟨hr, hq⟩ := hx s hs
  rw [exec_tryCatch]
  revert hr hq
  rcases x.exec s with ⟨r, s'⟩
  cases r with
  | ok a => exact fun hr hq => ⟨hr, ho a s' hq⟩
  | error e =>
    intro hr hq
    obtain ⟨hr', hq'⟩ := hh e s' hq
    exact ⟨trans_of R hr hr', hq'⟩

theorem map {x : Prog σ ε α} {g : α → β} {Q : Except ε β → σ → Prop}
    (h : RelTriple R P x fun r s => Q (r.map g) s) : RelTriple R P (g <$> x) Q := by
  intro s hs
  rw [exec_map]
  exact h s hs

end RelTriple

end MountpointS3.Foundations
