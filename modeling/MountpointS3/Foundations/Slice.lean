import Mathlib.Data.List.Basic

/-!
# Slices of a list

`(l.drop a).take (b - a)` is the slice of `l` from `a` to `b`, Rust's `&l[a..b]` where the bounds
are in range. A byte stream cut into pieces is a run of adjacent slices; the two rules the proofs
about such streams need are here:

* `slice_append_slice`: adjacent slices join into one;
* `slice_slice`: a slice of a slice is a slice.
-/

namespace MountpointS3.Foundations

variable {α : Type*} (l : List α)

theorem slice_append_slice {a b c : ℕ} (hab : a ≤ b) (hbc : b ≤ c) :
    (l.drop a).take (b - a) ++ (l.drop b).take (c - b) = (l.drop a).take (c - a) := by
  have h : c - a = (b - a) + (c - b) := by omega
  rw [h, List.take_add, List.drop_drop, Nat.add_sub_cancel' hab]

/-- Adjacent slices, by their lengths. -/
theorem take_drop_append_take_drop (a m n : ℕ) :
    (l.drop a).take m ++ (l.drop (a + m)).take n = (l.drop a).take (m + n) := by
  rw [List.take_add, List.drop_drop]

theorem slice_slice (x : ℕ) {n i j : ℕ} (hjn : j ≤ n) :
    (((l.drop x).take n).take j).drop i = (l.drop (x + i)).take (j - i) := by
  rw [List.take_take, Nat.min_eq_left hjn, List.drop_take, List.drop_drop]

/-- What is left of a slice after its first `i` elements. -/
theorem drop_slice (x n i : ℕ) : ((l.drop x).take n).drop i = (l.drop (x + i)).take (n - i) := by
  rw [List.drop_take, List.drop_drop]

theorem length_slice {a b : ℕ} (hb : b ≤ l.length) : ((l.drop a).take (b - a)).length = b - a := by
  simp only [List.length_take, List.length_drop]
  omega

end MountpointS3.Foundations
