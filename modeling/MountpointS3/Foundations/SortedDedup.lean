import Mathlib

/-!
# Dropping repeated keys from a stream

A stream of entries, each with a key in a linear order and a rank breaking ties, is sorted by
key then rank (`KeyRankLE`), the order of the ordered listing of a directory. Keeping an entry
only when its key differs from the key of the last entry kept is `List.destutter` for the
relation "keys differ" (`KeyNe`):

* `exists_key_mem_destutter`: every key of the stream is kept;
* `mem_destutter_ne`: with the key the entry itself, dropping adjacent repeats keeps every
  element of the list.
-/

namespace MountpointS3.Foundations

variable {α κ ρ : Type*} [LinearOrder κ] [Preorder ρ] (key : α → κ) (rank : α → ρ)

/-- Two entries with different keys. -/
def KeyNe (a b : α) : Prop := key a ≠ key b

instance [DecidableEq κ] : DecidableRel (KeyNe key) := fun a b =>
  inferInstanceAs (Decidable (key a ≠ key b))

/-- `a` sorts no later than `b`: by key, then by rank. -/
def KeyRankLE (a b : α) : Prop := key a < key b ∨ key a = key b ∧ rank a ≤ rank b

instance [DecidableLE ρ] : DecidableRel (KeyRankLE key rank) := fun a b =>
  inferInstanceAs (Decidable (key a < key b ∨ key a = key b ∧ rank a ≤ rank b))

variable {key rank} [DecidableEq κ]

omit [LinearOrder κ] in
theorem exists_key_mem_destutter' (a : α) (l : List α) :
    ∀ x ∈ a :: l, ∃ y ∈ l.destutter' (KeyNe key) a, key y = key x := by
  induction l generalizing a with
  | nil =>
    intro x hx
    rw [List.mem_singleton] at hx
    exact ⟨a, by simp [List.destutter'_nil], by rw [hx]⟩
  | cons b l ih =>
    intro x hx
    by_cases hab : KeyNe key a b
    · rw [List.destutter'_cons_pos _ hab]
      rcases List.mem_cons.1 hx with rfl | hx
      · exact ⟨x, List.mem_cons_self, rfl⟩
      · obtain ⟨y, hy, hk⟩ := ih b x hx
        exact ⟨y, List.mem_cons_of_mem _ hy, hk⟩
    · -- `b` is dropped; the entry kept before it has the same key
      rw [List.destutter'_cons_neg _ hab]
      have hk : key a = key b := not_not.1 hab
      rcases List.mem_cons.1 hx with rfl | hx
      · exact ih x x List.mem_cons_self
      rcases List.mem_cons.1 hx with rfl | hx
      · obtain ⟨y, hy, hky⟩ := ih a a List.mem_cons_self
        exact ⟨y, hy, hky.trans hk⟩
      · exact ih a x (List.mem_cons_of_mem _ hx)

omit [LinearOrder κ] in
/-- **Every key of the stream is kept.** -/
theorem exists_key_mem_destutter {l : List α} {x : α} (hx : x ∈ l) :
    ∃ y ∈ l.destutter (KeyNe key), key y = key x := by
  cases l with
  | nil => cases hx
  | cons a l => exact exists_key_mem_destutter' a l x hx

omit [LinearOrder κ] [DecidableEq κ] in
/-- Dropping adjacent repeats keeps every element. -/
theorem mem_destutter_ne [DecidableEq α] {l : List α} {x : α} :
    x ∈ l.destutter (· ≠ ·) ↔ x ∈ l := by
  refine ⟨fun h => (List.destutter_sublist _ l).subset h, fun h => ?_⟩
  obtain ⟨y, hy, hk⟩ : ∃ y ∈ l.destutter (KeyNe id), id y = id x :=
    exists_key_mem_destutter h
  have hyx : y = x := hk
  exact hyx ▸ hy

end MountpointS3.Foundations
