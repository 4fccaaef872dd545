import MountpointS3.Foundations.LinkedHashMap

/-!
# Usage accounting of the disk cache

`UsageInfo` of `disk_data_cache.rs`: the blocks the disk cache holds, least recently used first,
each with the size it was written with, and a running total `size` kept with `usize` saturating
arithmetic. `refresh` moves a block to the back, `add` records a block at the back and
`evict_lru` takes the front one off.

* `size_refresh`, `entries_add`, `size_add`, `evictLru_of_cons`: what each operation does;
* `total_add`, `prefixSize_add_total_evictFront`: how the sum of the recorded sizes (`total`) moves;
* `size_le_total_add`, `size_eq_total_add`: the running size stays at most the sum, and equal to it
  while no addition saturates;
* `evictCount`, `FewestLru`: evicting from the front while the size is over a limit evicts the
  fewest least recently used entries that bring the size within it.
-/

namespace MountpointS3.DataCache

open Foundations

/-- `usize::MAX`. -/
def usizeMax : ℕ := 2 ^ 64 - 1

/-- `usize::saturating_add`. -/
def saturatingAdd (a b : ℕ) : ℕ := min (a + b) usizeMax

/-- `usize::saturating_sub`. -/
def saturatingSub (a b : ℕ) : ℕ := a - b

/-- `UsageInfo`. -/
structure UsageInfo (K : Type) where
  entries : LinkedHashMap K ℕ
  size : ℕ

namespace UsageInfo

variable {K : Type}

/-- `UsageInfo::new`. -/
def new : UsageInfo K := ⟨.new, 0⟩

/-- `UsageInfo::evict_lru`: the key taken off the front, if any. -/
def evictLru (self : UsageInfo K) : Option K × UsageInfo K :=
  match self.entries.popFront with
  | (none, _) => (none, self)
  | (some (key, size), entries) => (some key, { entries, size := saturatingSub self.size size })

/-- The sum of the recorded sizes. -/
def total (u : UsageInfo K) : ℕ := (u.entries.entries.map Prod.snd).sum

/-- The sum of the sizes of the `n` least recently used entries. -/
def prefixSize (u : UsageInfo K) (n : ℕ) : ℕ := ((u.entries.entries.take n).map Prod.snd).sum

/-- The usage after `n` calls of `evict_lru` that each find an entry. -/
def evictFront (u : UsageInfo K) (n : ℕ) : UsageInfo K :=
  ⟨u.entries.dropFront n, u.size - u.prefixSize n⟩

/-- The number of entries evicted from the front while the size is over `maxSize`. -/
def evictCount (maxSize size : ℕ) : List (K × ℕ) → ℕ
  | [] => 0
  | e :: rest => if size ≤ maxSize then 0 else evictCount maxSize (size - e.2) rest + 1

/-- `n` is the fewest entries that, evicted from the front, bring the size to at most `maxSize`. -/
def FewestLru (maxSize : ℕ) (u : UsageInfo K) (n : ℕ) : Prop :=
  u.size - u.prefixSize n ≤ maxSize ∧ ∀ m < n, maxSize < u.size - u.prefixSize m

@[simp] theorem total_new : (new : UsageInfo K).total = 0 := rfl

@[simp] theorem size_new : (new : UsageInfo K).size = 0 := rfl

/-! ### Eviction from the front -/

theorem evictLru_of_nil {u : UsageInfo K} (h : u.entries.entries = []) : u.evictLru = (none, u) := by
  simp [evictLru, LinkedHashMap.popFront, h]

theorem evictLru_of_cons {u : UsageInfo K} {k : K} {s : ℕ} {rest : List (K × ℕ)}
    (h : u.entries.entries = (k, s) :: rest) :
    u.evictLru.1 = some k ∧ u.evictLru.2 = u.evictFront 1 := by
  rw [evictLru, LinkedHashMap.popFront_eq, h]
  simp [evictFront, prefixSize, saturatingSub, h]

theorem length_evictLru_lt {u u' : UsageInfo K} {k : K} (h : u.evictLru = (some k, u')) :
    u'.entries.entries.length < u.entries.entries.length := by
  match hu : u.entries.entries with
  | [] => simp [evictLru_of_nil hu] at h
  | (k', s) :: rest =>
    obtain ⟨-, h2⟩ := evictLru_of_cons hu
    rw [h] at h2
    rw [show u' = u.evictFront 1 from h2]
    simp [evictFront, hu]

theorem evictFront_zero (u : UsageInfo K) : u.evictFront 0 = u := by
  simp [evictFront, prefixSize, LinkedHashMap.dropFront]

theorem evictFront_succ {u : UsageInfo K} {e : K × ℕ} {rest : List (K × ℕ)}
    (h : u.entries.entries = e :: rest) (n : ℕ) :
    (u.evictFront 1).evictFront n = u.evictFront (n + 1) := by
  simp only [evictFront, prefixSize, LinkedHashMap.entries_dropFront, h, UsageInfo.mk.injEq]
  constructor
  · ext1
    simp [h]
  · simp [Nat.sub_sub]

theorem prefixSize_add_total_evictFront (u : UsageInfo K) (n : ℕ) :
    u.prefixSize n + (u.evictFront n).total = u.total := by
  simp [prefixSize, evictFront, total, ← List.sum_append]

theorem size_le_total_evictFront {u : UsageInfo K} (h : u.size ≤ u.total) (n : ℕ) :
    (u.evictFront n).size ≤ (u.evictFront n).total := by
  have := prefixSize_add_total_evictFront u n
  simp only [evictFront] at this ⊢
  omega

theorem size_eq_total_evictFront {u : UsageInfo K} (h : u.size = u.total) (n : ℕ) :
    (u.evictFront n).size = (u.evictFront n).total := by
  have := prefixSize_add_total_evictFront u n
  simp only [evictFront] at this ⊢
  omega

theorem evictCount_of_le {maxSize size : ℕ} (h : size ≤ maxSize) (l : List (K × ℕ)) :
    evictCount maxSize size l = 0 := by
  cases l <;> simp [evictCount, h]

/-- Evicting from the front while the size is over `maxSize` evicts the fewest entries that bring it
within `maxSize`, and never runs out of entries, when the size is at most the sum. -/
theorem evictCount_fewest {u : UsageInfo K} (maxSize : ℕ) (h : u.size ≤ u.total) :
    u.FewestLru maxSize (evictCount maxSize u.size u.entries.entries) := by
  obtain ⟨⟨l, hl⟩, size⟩ := u
  simp only [FewestLru, prefixSize, total] at h ⊢
  induction l generalizing size with
  | nil =>
    simp only [List.map_nil, List.sum_nil, Nat.le_zero] at h
    simp [evictCount, h]
  | cons e rest ih =>
    have ih := ih (size - e.2) (List.nodup_cons.1 hl).2
    simp only [List.map_cons, List.sum_cons] at h ih
    by_cases hs : size ≤ maxSize
    · simp [evictCount, hs]
    · simp only [evictCount, hs, if_false]
      obtain ⟨hwithin, hfewest⟩ := ih (by omega)
      refine ⟨by simpa [Nat.sub_sub] using hwithin, fun m hm => ?_⟩
      cases m with
      | zero => simpa using hs
      | succ m => simpa [Nat.sub_sub] using hfewest m (by omega)

/-! ### Refresh and add -/

variable [DecidableEq K]

/-- `UsageInfo::refresh`: whether the key is present. -/
def refresh (self : UsageInfo K) (key : K) : Bool × UsageInfo K :=
  let (value, entries) := self.entries.getRefresh key
  (value.isSome, { self with entries })

/-- `UsageInfo::add`. -/
def add (self : UsageInfo K) (key : K) (size : ℕ) : UsageInfo K :=
  let (previous, entries) := self.entries.insert key size
  let self := { self with entries }
  let self :=
    match previous with
    | some previousSize => { self with size := saturatingSub self.size previousSize }
    | none => self
  { self with size := saturatingAdd self.size size }

@[simp] theorem size_refresh (u : UsageInfo K) (key : K) : (u.refresh key).2.size = u.size := rfl

theorem refresh_of_get? {u : UsageInfo K} {key : K} {v : ℕ} (h : u.entries.get? key = some v) :
    (u.refresh key).2 = { u with entries := u.entries.moveToBack key v } := by
  simp [refresh, LinkedHashMap.getRefresh_of_get? h]

theorem refresh_of_get?_eq_none {u : UsageInfo K} {key : K} (h : u.entries.get? key = none) :
    (u.refresh key).2 = u := by
  simp [refresh, LinkedHashMap.getRefresh_of_get?_eq_none h]

theorem total_refresh (u : UsageInfo K) (key : K) : (u.refresh key).2.total = u.total := by
  cases hv : u.entries.get? key with
  | none => rw [refresh_of_get?_eq_none hv]
  | some v =>
    have := LinkedHashMap.sum_moveToBack u.entries key v
    simp only [hv, Option.getD_some] at this
    simp only [refresh_of_get? hv, total]
    omega

@[simp] theorem entries_add (u : UsageInfo K) (key : K) (size : ℕ) :
    (u.add key size).entries = u.entries.moveToBack key size := by
  simp only [add]
  split <;> rfl

/-- The previous size of a key, `0` if it has none. -/
def previousSize (u : UsageInfo K) (key : K) : ℕ := (u.entries.get? key).getD 0

theorem size_add (u : UsageInfo K) (key : K) (size : ℕ) :
    (u.add key size).size = saturatingAdd (u.size - u.previousSize key) size := by
  simp only [add, LinkedHashMap.insert_fst, previousSize]
  cases u.entries.get? key <;> rfl

theorem total_add (u : UsageInfo K) (key : K) (size : ℕ) :
    (u.add key size).total + u.previousSize key = u.total + size := by
  simp only [total, previousSize, entries_add]
  exact LinkedHashMap.sum_moveToBack u.entries key size

theorem previousSize_le_total (u : UsageInfo K) (key : K) : u.previousSize key ≤ u.total := by
  have := LinkedHashMap.sum_filter_add_get? u.entries key
  simp only [total, previousSize]
  omega

theorem size_add_le_usizeMax (u : UsageInfo K) (key : K) (size : ℕ) : (u.add key size).size ≤ usizeMax := by
  rw [size_add, saturatingAdd]
  exact min_le_right _ _

theorem size_add_le (u : UsageInfo K) (key : K) (size : ℕ) : (u.add key size).size ≤ u.size + size := by
  rw [size_add, saturatingAdd]
  omega

theorem size_le_total_add {u : UsageInfo K} (h : u.size ≤ u.total) (key : K) (size : ℕ) :
    (u.add key size).size ≤ (u.add key size).total := by
  have hsum := total_add u key size
  have hprev := previousSize_le_total u key
  rw [size_add, saturatingAdd]
  omega

/-- The size stays the sum when the sum and the added size fit in a `usize`. -/
theorem size_eq_total_add {u : UsageInfo K} (h : u.size = u.total) {key : K} {size : ℕ}
    (hfit : u.total + size ≤ usizeMax) : (u.add key size).size = (u.add key size).total := by
  have hsum := total_add u key size
  have hprev := previousSize_le_total u key
  rw [size_add, saturatingAdd]
  omega

end UsageInfo

end MountpointS3.DataCache
