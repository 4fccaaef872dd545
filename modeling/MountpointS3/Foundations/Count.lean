import Mathlib

/-!
# Counters kept beside a list

A counter that tracks how many elements of a list pass a test, or the sum of a weight over
those that do, moves by one element's share when the element is removed (`countP_eq_erase_add`,
`sum_map_filter_eq_erase_add`), and, when the test changes at one element of a list that holds
it once, by the change at that element (`countP_add_eq_of_eq_off`). These are the three moves a
counter of a pool makes beside the list of what it counts.
-/

namespace MountpointS3.Foundations

variable {α : Type*}

/-- Changing the test at one element `a` of a list that holds it once changes the count by the
change at `a`. -/
theorem countP_add_eq_of_eq_off {l : List α} {p q : α → Bool} {a : α} [DecidableEq α] (hl : l.Nodup)
    (ha : a ∈ l) (h : ∀ x ∈ l, x ≠ a → p x = q x) :
    l.countP p + (if q a then 1 else 0) = l.countP q + (if p a then 1 else 0) := by
  have hperm := List.perm_cons_erase ha
  -- off `a` the two tests agree on what is left once `a` is taken out
  have hrest : (l.erase a).countP p = (l.erase a).countP q :=
    List.countP_congr fun x hx => by
      obtain ⟨hxa, hxl⟩ := (hl.mem_erase_iff).1 hx
      rw [h x hxl hxa]
  rw [hperm.countP_eq p, hperm.countP_eq q, List.countP_cons, List.countP_cons, hrest]
  omega

/-- Taking an element out of a list takes its share out of a count. -/
theorem countP_eq_erase_add {l : List α} {b : α} [DecidableEq α] (hb : b ∈ l) (q : α → Bool) :
    l.countP q = (l.erase b).countP q + (if q b then 1 else 0) := by
  rw [(List.perm_cons_erase hb).countP_eq q, List.countP_cons]

/-- Taking an element out of a list takes its weight out of a sum over the elements that pass a
test. -/
theorem sum_map_filter_eq_erase_add {l : List α} {b : α} [DecidableEq α] (hb : b ∈ l) (q : α → Bool)
    (f : α → ℕ) :
    ((l.filter q).map f).sum = (((l.erase b).filter q).map f).sum + (if q b then f b else 0) := by
  rw [(((List.perm_cons_erase hb).filter q).map f).sum_eq, List.filter_cons]
  split <;> simp [Nat.add_comm]

end MountpointS3.Foundations
