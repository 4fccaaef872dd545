import Mathlib.Data.List.Nodup

/-!
# Evicting from the front of a queue

A bounded queue kept as a list, oldest first, evicts from the front: `dropWhile p` drops the
leading elements that are stale by `p`, and `drop (l.length - n)` keeps the newest `n`. Which
elements survive is what a cache's guarantees rest on:

* `mem_dropWhile_or`: an element of the list survives `dropWhile p` or is stale by `p`;
* `mem_drop_or_le_length`: an element survives the bound `n`, or at least `n` elements follow
  it; when the elements after each `x` have distinct keys, all in `S x`, that makes `S x` hold
  at least `n` keys.
-/

namespace MountpointS3.Foundations

variable {α β : Type*}

theorem mem_dropWhile_or {p : α → Bool} {l : List α} {x : α} (hx : x ∈ l) :
    x ∈ l.dropWhile p ∨ p x = true := by
  rw [← List.takeWhile_append_dropWhile (p := p) (l := l), List.mem_append] at hx
  rcases hx with hx | hx
  · -- what `dropWhile` drops is the prefix `takeWhile` keeps, stale throughout
    have hall := List.all_takeWhile (p := p) (l := l)
    rw [List.all_eq_true] at hall
    exact .inr (hall x hx)
  · exact .inl hx

theorem mem_drop_or_exists {l : List α} {x : α} (hx : x ∈ l) (n : ℕ) :
    x ∈ l.drop (l.length - n) ∨ ∃ a b, l = a ++ x :: b ∧ n ≤ b.length := by
  obtain ⟨a, b, rfl⟩ := List.append_of_mem hx
  by_cases hb : n ≤ b.length
  · exact .inr ⟨a, b, rfl, hb⟩
  · have hle : (a ++ x :: b).length - n ≤ a.length := by
      simp only [List.length_append, List.length_cons]
      omega
    left
    rw [List.drop_append_of_le_length hle]
    exact List.mem_append_right _ List.mem_cons_self

/-- The elements after `x` in a list whose keys are distinct and, after each `x`, in `S x`,
are at most as many as `S x`. -/
theorem length_le_of_pairwise {f : α → β} {S : α → List β} {a b : List α} {x : α}
    (hnd : ((a ++ x :: b).map f).Nodup) (hord : (a ++ x :: b).Pairwise fun x y => f y ∈ S x) :
    b.length ≤ (S x).length := by
  have hb : (b.map f).Nodup := by
    rw [List.map_append, List.map_cons] at hnd
    exact (List.nodup_cons.1 (List.nodup_append.1 hnd).2.1).2
  have hsub : b.map f ⊆ S x := by
    intro y hy
    obtain ⟨z, hz, rfl⟩ := List.mem_map.1 hy
    exact List.rel_of_pairwise_cons (List.pairwise_append.1 hord).2.1 hz
  simpa using hb.length_le_of_subset hsub

theorem mem_drop_or_le_length {f : α → β} {S : α → List β} {l : List α}
    (hnd : (l.map f).Nodup) (hord : l.Pairwise fun x y => f y ∈ S x) {x : α} (hx : x ∈ l)
    (n : ℕ) : x ∈ l.drop (l.length - n) ∨ n ≤ (S x).length := by
  rcases mem_drop_or_exists hx n with hx | ⟨a, b, rfl, hb⟩
  · exact .inl hx
  · exact .inr (Nat.le_trans hb (length_le_of_pairwise hnd hord))

end MountpointS3.Foundations
