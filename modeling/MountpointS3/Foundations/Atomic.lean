import Mathlib.Data.Nat.Basic
import Mathlib.Order.Basic

/-!
# Atomic words

Two things a counter shared by threads is built from:

* saturating arithmetic on 64-bit words (`U64.saturatingAdd`, `U64.saturatingSub`), with their
  values as naturals;
* read-modify-write loops on compare-and-swap (`CasLoop`). A thread loads the word, computes from
  the value it holds a new value or a refusal, and commits the new value with a compare-and-swap,
  which fails when the word is no longer the value the thread holds (and, when weak, may fail
  anyway); a failure hands the thread the word as it is, and the loop computes again.

What makes such a loop correct under every interleaving is that a commit applies the update to
the word as it is at that instant: `CasLoop.Commits R` says that a pending new value is related by
`R` to the value the thread holds, every step keeps it (`commits_compute`, `commits_exchange`), and `exchange_committed` reads a successful compare-and-swap as a step from
the held value to the new one.
-/

namespace MountpointS3.Foundations

namespace U64

/-- `u64::saturating_add`. -/
def saturatingAdd (a b : UInt64) : UInt64 := UInt64.ofNat (min (a.toNat + b.toNat) (UInt64.size - 1))

/-- `u64::saturating_sub`. -/
def saturatingSub (a b : UInt64) : UInt64 := UInt64.ofNat (a.toNat - b.toNat)

@[simp] theorem toNat_saturatingAdd (a b : UInt64) :
    (saturatingAdd a b).toNat = min (a.toNat + b.toNat) (UInt64.size - 1) := by
  rw [saturatingAdd, UInt64.toNat_ofNat', Nat.mod_eq_of_lt]
  exact lt_of_le_of_lt (min_le_right _ _) (by decide)

@[simp] theorem toNat_saturatingSub (a b : UInt64) : (saturatingSub a b).toNat = a.toNat - b.toNat := by
  rw [saturatingSub, UInt64.toNat_ofNat', Nat.mod_eq_of_lt]
  exact lt_of_le_of_lt (Nat.sub_le _ _) a.toNat_lt_size

end U64

/-- Where a thread running a compare-and-swap loop on a word of type `α` is. -/
inductive CasLoop (α : Type*)
  /-- Not in a loop. -/
  | idle
  /-- Holding the value `current`, about to compute from it. -/
  | holding (current : α)
  /-- About to compare-and-swap `current` for `new`. -/
  | exchanging (current new : α)
  /-- Returned, having committed or refused. -/
  | returned (committed : Bool)
  deriving DecidableEq

namespace CasLoop

variable {α : Type*}

/-- Whether the thread is in a loop. -/
def running : CasLoop α → Bool
  | holding _ | exchanging _ _ => true
  | idle | returned _ => false

/-- The computation of the new value by `update` from the value held; a refusal returns. -/
def compute (update : α → Option α) : CasLoop α → CasLoop α
  | holding current =>
    match update current with
    | none => returned false
    | some new => exchanging current new
  | t => t

section Exchange

variable [DecidableEq α]

/-- Whether the compare-and-swap of a thread commits: the word is still the value it holds and
the exchange does not fail spuriously. -/
def commits (word : α) (spurious : Bool) : CasLoop α → Bool
  | exchanging current _ => decide (word = current) && !spurious
  | _ => false

/-- The compare-and-swap, on the word `word`: the word after it, and the thread. -/
def exchange (word : α) (spurious : Bool) : CasLoop α → α × CasLoop α
  | exchanging current new =>
    if word = current ∧ spurious = false then (new, returned true) else (word, holding word)
  | t => (word, t)

/-- A compare-and-swap that does not commit leaves the word as it is. -/
theorem exchange_fst_of_not_commits {word : α} {spurious : Bool} {t : CasLoop α}
    (h : t.commits word spurious = false) : (t.exchange word spurious).1 = word := by
  cases t with
  | exchanging current new =>
    simp only [commits, Bool.and_eq_false_iff, decide_eq_false_iff_not, Bool.not_eq_false'] at h
    simp only [exchange]
    split_ifs with hc
    · rcases h with h | h
      · exact absurd hc.1 h
      · exact absurd hc.2 (by simp [h])
    · rfl
  | idle | holding | returned => rfl

/-- A compare-and-swap that commits exchanges the value the thread holds for its new value. -/
theorem exchange_committed {word : α} {spurious : Bool} {t : CasLoop α}
    (h : t.commits word spurious = true) :
    ∃ new, t = exchanging word new ∧ t.exchange word spurious = (new, returned true) := by
  cases t with
  | exchanging current new =>
    simp only [commits, Bool.and_eq_true, decide_eq_true_eq, Bool.not_eq_true'] at h
    obtain ⟨rfl, rfl⟩ := h
    exact ⟨new, rfl, if_pos ⟨rfl, rfl⟩⟩
  | idle | holding | returned => cases h

end Exchange

/-- The pending new value of a thread is related by `R` to the value it holds. -/
def Commits (R : α → α → Prop) : CasLoop α → Prop
  | exchanging current new => R current new
  | _ => True

variable {R : α → α → Prop} {t : CasLoop α}

/-- An update whose every new value is related by `R` to its argument keeps `Commits R`. -/
theorem commits_compute {update : α → Option α} (hupdate : ∀ current new, update current = some new →
    R current new) (h : t.Commits R) : (t.compute update).Commits R := by
  cases t with
  | holding current =>
    simp only [compute]
    split
    · trivial
    · rename_i new hnew
      exact hupdate current new hnew
  | idle | exchanging | returned => exact h

theorem commits_exchange [DecidableEq α] (word : α) (spurious : Bool) (h : t.Commits R) :
    (t.exchange word spurious).2.Commits R := by
  cases t with
  | exchanging current new =>
    simp only [exchange]
    split_ifs <;> trivial
  | idle | holding | returned => exact h

end CasLoop

end MountpointS3.Foundations
