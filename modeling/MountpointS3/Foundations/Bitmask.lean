import Mathlib.Data.BitVec

/-!
# Bit masks of slots

A bit mask of `w` bits read as the set of slots in use: slot `i` is taken by setting its bit
(`m ||| twoPow w i`), freed by clearing it (`m &&& ~~~twoPow w i`), found free when
`m &&& twoPow w i = 0`; the mask is zero when no slot is in use, and all ones when every slot
is. Each rule is stated bit by bit, through `getLsbD`.
-/

namespace MountpointS3.Foundations

open BitVec

variable {w : ℕ} (m : BitVec w) {i : ℕ} (j : ℕ)

theorem getLsbD_set_bit (hi : i < w) :
    (m ||| twoPow w i).getLsbD j = (m.getLsbD j || decide (i = j)) := by
  rw [getLsbD_or, getLsbD_twoPow]
  simp [hi]

theorem getLsbD_clear_bit : (m &&& ~~~twoPow w i).getLsbD j = (m.getLsbD j && !decide (i = j)) := by
  rw [getLsbD_and, getLsbD_not, getLsbD_twoPow]
  by_cases hj : j < w
  · by_cases hij : i = j
    · subst hij
      simp
    · simp [hj, hij]
  · simp [getLsbD_of_ge m j (by omega)]

/-- A mask is zero when no bit is set. -/
theorem eq_zero_iff_getLsbD : m = 0#w ↔ ∀ j, m.getLsbD j = false := by
  constructor
  · rintro rfl j
    simp
  · intro h
    ext j hj
    simpa [getLsbD_eq_getElem hj] using h j

/-- Slot `i` is free when the mask has no bit in common with it. -/
theorem and_twoPow_eq_zero_iff (hi : i < w) : (m &&& twoPow w i) = 0#w ↔ m.getLsbD i = false := by
  rw [eq_zero_iff_getLsbD]
  constructor
  · intro h
    simpa [getLsbD_and, getLsbD_twoPow, hi] using h i
  · intro h j
    rw [getLsbD_and, getLsbD_twoPow]
    by_cases hij : i = j
    · subst hij
      simp [h]
    · simp [hij]

/-- A mask that is not all ones has a free slot. -/
theorem exists_getLsbD_eq_false (h : m ≠ allOnes w) : ∃ i < w, m.getLsbD i = false := by
  by_contra hall
  refine h (BitVec.eq_of_getLsbD_eq fun k hk => ?_)
  have hset : m.getLsbD k ≠ false := fun hfree => hall ⟨k, hk, hfree⟩
  simpa [hk] using hset

end MountpointS3.Foundations
