import Mathlib.Data.List.Sort
import MountpointS3.Foundations.SortedDedup

/-!
# The size classes of the paged memory pool

`PagedPool::new_with_candidate_sizes` (memory/pool.rs) keeps the candidate buffer sizes in
`(0, MAX_BUFFER_SIZE]`, drops repeated sizes with `Vec::dedup`, sorts what is left and falls
back to `DEFAULT_BUFFER_SIZE`; `get_buffer` serves a request from the size pool that
`get_pool_for_size` finds by a partition point, or from secondary memory. A pool is modelled
by the buffer sizes of its size pools, in order: the pages and reservations of a size pool
do not take part in the choice of a pool.

* `PagedPool`: the buffer sizes, sorted and each in range, as `new_with_candidate_sizes`
  leaves them;
* `mem_orderedSizes`: the sizes are the valid candidates, or the default when there is none;
* `sortedLT_orderedSizes_iff`: they are strictly increasing exactly when no valid size is
  repeated once adjacent repeats are dropped. `Vec::dedup` drops adjacent repeats only and the
  sort comes after it, so a size given twice with another in between gets two size pools;
* `getPoolForSize_spec`, `getPoolForSize_eq_none_iff`: the pool chosen is the smallest one
  that fits, and there is none exactly when the size is zero or above every pool;
* `getBuffer_capacity`, `getBuffer_of_fits`, `getBuffer_of_not_fits`: every buffer has the
  capacity asked for, the assertion of `PoolBuffer::new_primary` never fails, and a request is
  primary exactly when some pool fits it.
-/

namespace MountpointS3.Memory

/-- `PagedPool::MAX_BUFFER_SIZE`. -/
def maxBufferSize : ℕ := 64 * 1024 * 1024

/-- `PagedPool::DEFAULT_BUFFER_SIZE`. -/
def defaultBufferSize : ℕ := 8 * 1024 * 1024

/-- A buffer size that `new_with_candidate_sizes` retains. -/
def IsValidSize (size : ℕ) : Prop := 0 < size ∧ size ≤ maxBufferSize

instance : DecidablePred IsValidSize := fun size =>
  inferInstanceAs (Decidable (0 < size ∧ size ≤ maxBufferSize))

theorem isValidSize_defaultBufferSize : IsValidSize defaultBufferSize := by
  decide

/-- The steps of `new_with_candidate_sizes` on the candidate sizes: `retain` the valid ones,
`dedup`, `sort`, and push the default when nothing is left. On `usize` every sort gives the
same list, so the stable sort of the source is insertion sort here. -/
def orderedSizes (bufferSizes : List ℕ) : List ℕ :=
  let retained := bufferSizes.filter IsValidSize
  let sorted := (retained.destutter (· ≠ ·)).insertionSort (· ≤ ·)
  if sorted.isEmpty then [defaultBufferSize] else sorted

/-- The sizes are the valid candidates, or the default when there is none. -/
theorem mem_orderedSizes {bufferSizes : List ℕ} {size : ℕ} :
    size ∈ orderedSizes bufferSizes ↔
      size ∈ bufferSizes ∧ IsValidSize size ∨
        (∀ c ∈ bufferSizes, ¬IsValidSize c) ∧ size = defaultBufferSize := by
  have hmem : ∀ x, x ∈ ((bufferSizes.filter IsValidSize).destutter (· ≠ ·)).insertionSort
      (· ≤ ·) ↔ x ∈ bufferSizes ∧ IsValidSize x := by
    intro x
    rw [List.mem_insertionSort, Foundations.mem_destutter_ne, List.mem_filter, decide_eq_true_iff]
  dsimp only [orderedSizes]
  split
  · rename_i hnil
    -- nothing valid was given
    have hnone : ∀ c ∈ bufferSizes, ¬IsValidSize c := fun c hc hv =>
      by simpa [List.isEmpty_iff.1 hnil] using (hmem c).2 ⟨hc, hv⟩
    simp only [List.mem_singleton]
    exact ⟨fun h => .inr ⟨hnone, h⟩,
      fun h => h.elim (fun h => absurd h.2 (hnone _ h.1)) And.right⟩
  · rename_i hne
    rw [hmem]
    refine ⟨.inl, fun h => h.elim id fun ⟨hnone, _⟩ => ?_⟩
    obtain ⟨x, hx⟩ := List.exists_mem_of_ne_nil _ (by simpa using hne)
    exact absurd ((hmem x).1 hx).2 (hnone x ((hmem x).1 hx).1)

theorem sortedLE_orderedSizes (bufferSizes : List ℕ) : (orderedSizes bufferSizes).SortedLE := by
  dsimp only [orderedSizes]
  split
  · exact (List.pairwise_singleton _ _).sortedLE
  · exact List.sortedLE_insertionSort

theorem isValidSize_of_mem_orderedSizes {bufferSizes : List ℕ} {size : ℕ}
    (h : size ∈ orderedSizes bufferSizes) : IsValidSize size := by
  rcases mem_orderedSizes.1 h with ⟨-, hv⟩ | ⟨-, rfl⟩
  · exact hv
  · exact isValidSize_defaultBufferSize

/-- The sizes are strictly increasing exactly when no valid size repeats once adjacent repeats
are dropped: `dedup` before `sort` removes only the repeats that stand side by side. -/
theorem sortedLT_orderedSizes_iff (bufferSizes : List ℕ) :
    (orderedSizes bufferSizes).SortedLT ↔
      ((bufferSizes.filter IsValidSize).destutter (· ≠ ·)).Nodup := by
  rw [List.sortedLT_iff_nodup_and_sortedLE, and_iff_left (sortedLE_orderedSizes bufferSizes)]
  dsimp only [orderedSizes]
  split
  · rename_i hnil
    have hd : (bufferSizes.filter IsValidSize).destutter (· ≠ ·) = [] :=
      ((List.perm_insertionSort _ _).symm.trans (.of_eq (List.isEmpty_iff.1 hnil))).eq_nil
    simp [hd]
  · exact (List.perm_insertionSort _ _).nodup_iff

/-- The buffer sizes of `PagedPoolInner::ordered_size_pools`, one for each `SizePool`, with
what `new_with_candidate_sizes` guarantees of them. -/
structure PagedPool where
  orderedSizePools : List ℕ
  sorted : orderedSizePools.SortedLE
  valid : ∀ size ∈ orderedSizePools, IsValidSize size

/-- `PagedPool::new_with_candidate_sizes`. -/
def newWithCandidateSizes (bufferSizes : List ℕ) : PagedPool where
  orderedSizePools := orderedSizes bufferSizes
  sorted := sortedLE_orderedSizes bufferSizes
  valid _ := isValidSize_of_mem_orderedSizes

/-- `slice::partition_point`: the index of the first element for which `pred` fails. The
source calls it on slices partitioned by `pred`, where its binary search finds that index. -/
def partitionPoint {α : Type*} (l : List α) (pred : α → Bool) : ℕ :=
  l.findIdx fun x => !pred x

/-- `PagedPoolInner::get_pool_for_size`, giving the buffer size of the pool it returns. -/
def PagedPool.getPoolForSize (pool : PagedPool) (size : ℕ) : Option ℕ :=
  if size = 0 then none
  else
    let index := partitionPoint pool.orderedSizePools fun bufferSize => bufferSize < size
    if index = pool.orderedSizePools.length then none else pool.orderedSizePools[index]?

/-- A buffer of the pool (memory/buffers.rs `PoolBufferInner`). -/
inductive PoolBuffer
  /-- `size` bytes of a buffer of the size pool of buffer size `bufferSize`. -/
  | primary (bufferSize size : ℕ)
  /-- A free allocation of `size` bytes. -/
  | secondary (size : ℕ)
  deriving DecidableEq, Repr

/-- `PoolBuffer::new_primary`; `none` where its `assert!(size <= buffer_ptr.size())` fails. -/
def PoolBuffer.newPrimary (bufferSize size : ℕ) : Option PoolBuffer :=
  if size ≤ bufferSize then some (.primary bufferSize size) else none

/-- `PoolBuffer::capacity`. -/
def PoolBuffer.capacity : PoolBuffer → ℕ
  | .primary _ size => size
  | .secondary size => size

/-- `PagedPool::get_buffer`; `none` where `new_primary` panics. -/
def PagedPool.getBuffer (pool : PagedPool) (size : ℕ) : Option PoolBuffer :=
  match pool.getPoolForSize size with
  | some bufferSize => PoolBuffer.newPrimary bufferSize size
  | none => some (.secondary size)

namespace PagedPool

variable (pool : PagedPool) {size : ℕ}

/-- The pool chosen for a size is one of the pool's, fits it, and is the smallest that does. -/
theorem getPoolForSize_spec {bufferSize : ℕ} (h : pool.getPoolForSize size = some bufferSize) :
    0 < size ∧ bufferSize ∈ pool.orderedSizePools ∧ size ≤ bufferSize ∧
      ∀ b ∈ pool.orderedSizePools, size ≤ b → bufferSize ≤ b := by
  dsimp only [getPoolForSize, partitionPoint] at h
  split at h
  · cases h
  rename_i hsize
  split at h
  · cases h
  rename_i hlen
  set l := pool.orderedSizePools
  set index := l.findIdx fun x => !decide (x < size)
  have hlt : index < l.length := lt_of_le_of_ne List.findIdx_le_length hlen
  have hb : l[index] = bufferSize := by
    simpa [List.getElem?_eq_getElem hlt] using h
  -- the element at the partition point is the first that is not below the size
  have hfit : size ≤ l[index] := by
    simpa using List.findIdx_getElem (w := hlt)
  refine ⟨Nat.pos_of_ne_zero hsize, hb ▸ List.getElem_mem hlt, hb ▸ hfit,
    fun b hbm hsb => ?_⟩
  obtain ⟨j, hj, rfl⟩ := List.getElem_of_mem hbm
  rcases Nat.lt_or_ge j index with hji | hji
  · have hbelow : l[j] < size := by simpa using List.not_of_lt_findIdx hji
    omega
  · have hij : (⟨index, hlt⟩ : Fin l.length) ≤ ⟨j, hj⟩ := hji
    exact hb ▸ pool.sorted.monotone_get hij

/-- No pool is chosen exactly when the size is zero or no pool fits it. -/
theorem getPoolForSize_eq_none_iff :
    pool.getPoolForSize size = none ↔ size = 0 ∨ ∀ b ∈ pool.orderedSizePools, b < size := by
  dsimp only [getPoolForSize, partitionPoint]
  by_cases hsize : size = 0
  · simp [hsize]
  have hlt : ∀ i, (i < pool.orderedSizePools.length) → pool.orderedSizePools[i]? ≠ none :=
    fun i hi => by simp [List.getElem?_eq_getElem hi]
  simp only [hsize, if_false, false_or]
  split
  · rename_i hlen
    simpa using List.findIdx_eq_length.1 hlen
  · rename_i hlen
    simp only [hlt _ (lt_of_le_of_ne List.findIdx_le_length hlen), false_iff]
    intro hall
    exact hlen (List.findIdx_eq_length.2 fun b hb => by simpa using hall b hb)

/-- Every request gets a buffer of exactly its size: `new_primary` never panics. -/
theorem getBuffer_capacity (size : ℕ) :
    ∃ buf, pool.getBuffer size = some buf ∧ buf.capacity = size := by
  unfold getBuffer
  split
  · rename_i bufferSize h
    have hfit := (pool.getPoolForSize_spec h).2.2.1
    exact ⟨.primary bufferSize size, by simp [PoolBuffer.newPrimary, hfit], rfl⟩
  · exact ⟨.secondary size, rfl, rfl⟩

/-- A request of positive size that some pool fits is served by the smallest such pool. -/
theorem getBuffer_of_fits (hpos : 0 < size) (hfits : ∃ b ∈ pool.orderedSizePools, size ≤ b) :
    ∃ bufferSize, pool.getBuffer size = some (.primary bufferSize size) ∧
      bufferSize ∈ pool.orderedSizePools ∧ size ≤ bufferSize ∧
      ∀ b ∈ pool.orderedSizePools, size ≤ b → bufferSize ≤ b := by
  cases h : pool.getPoolForSize size with
  | none =>
    obtain ⟨b, hb, hsb⟩ := hfits
    rcases (pool.getPoolForSize_eq_none_iff).1 h with h0 | hall
    · omega
    · exact absurd (hall b hb) (Nat.not_lt.2 hsb)
  | some bufferSize =>
    obtain ⟨-, hmem, hfit, hmin⟩ := pool.getPoolForSize_spec h
    refine ⟨bufferSize, ?_, hmem, hfit, hmin⟩
    simp [getBuffer, h, PoolBuffer.newPrimary, hfit]

/-- A request of size zero, or above every pool, is a secondary allocation. -/
theorem getBuffer_of_not_fits (h : size = 0 ∨ ∀ b ∈ pool.orderedSizePools, b < size) :
    pool.getBuffer size = some (.secondary size) := by
  simp [getBuffer, (pool.getPoolForSize_eq_none_iff).2 h]

end PagedPool

/-- Two size pools of one buffer size: `dedup` keeps the two `8 MiB` candidates, which are not
adjacent, and the sort then puts them side by side. -/
theorem new_with_candidate_sizes_keeps_duplicate :
    (newWithCandidateSizes [8388608, 16777216, 8388608]).orderedSizePools =
        [8388608, 8388608, 16777216] ∧
      ¬(newWithCandidateSizes [8388608, 16777216, 8388608]).orderedSizePools.SortedLT := by
  refine ⟨by decide, ?_⟩
  rw [newWithCandidateSizes, sortedLT_orderedSizes_iff]
  decide

end MountpointS3.Memory
