import Mathlib.Data.List.Induction
import MountpointS3.Foundations.Bitmask
import MountpointS3.Foundations.Run
import MountpointS3.Memory.Pool

/-!
# Pages of the paged pool

A size pool (memory/pool.rs) hands out buffers from pages of sixteen buffers each
(memory/pages.rs). A page tracks the buffers in use in a 16-bit `reserved_bitmask`; the size
pool's `SizePoolStats` count its empty pages and its reserved buffers of each kind, and the
pool's `PoolStats` the bytes reserved of each kind (memory/stats.rs). `trim` removes the empty
pages, marking each `FULL_MASK` first so that it hands out no buffer in the meantime.

The model runs the pool one call at a time. A page is known by its number in `heap`, which
holds every page allocated so far (a removed page stays there, as the memory a late
reference would see); a buffer is known by its page and index.

* `consume_spec`, `tryReserve_spec`, `release_spec`, `newPage_spec`, `retainPages_spec`: what
  each operation on a page does to the masks and the counters;
* `reserve_spec`, `getBuffer_spec`: where the buffer a call hands out comes from, and what
  else the call changes;
* `Grows`: every call but `trim` keeps the pages it had and their size pools, and changes
  the heap only at pages it adds or at the page it hands a buffer from.
-/

namespace MountpointS3.Memory

open Foundations

/-- `BufferKind`. -/
inductive BufferKind
  | getObject
  | putObject
  | diskCache
  | append
  | other
  deriving DecidableEq, Repr

/-- `PoolStats`: the bytes reserved for each kind of buffer. -/
structure PoolStats where
  reservedBytes : BufferKind → ℕ

namespace PoolStats

/-- `PoolStats::reserve_bytes`. -/
def reserveBytes (stats : PoolStats) (bytes : ℕ) (kind : BufferKind) : PoolStats :=
  ⟨Function.update stats.reservedBytes kind (stats.reservedBytes kind + bytes)⟩

/-- `PoolStats::release_bytes`. -/
def releaseBytes (stats : PoolStats) (bytes : ℕ) (kind : BufferKind) : PoolStats :=
  ⟨Function.update stats.reservedBytes kind (stats.reservedBytes kind - bytes)⟩

end PoolStats

/-- `SizePoolStats`, less its `pool_stats`: every size pool points to the pool's one
`PoolStats`, which the model keeps in `PagedPoolInner`. -/
structure SizePoolStats where
  bufferSize : ℕ
  emptyPages : ℕ
  reservedBuffers : BufferKind → ℕ

namespace SizePoolStats

/-- `SizePoolStats::new`. -/
def new (bufferSize : ℕ) : SizePoolStats := ⟨bufferSize, 0, fun _ => 0⟩

/-- `SizePoolStats::add_empty_page`. -/
def addEmptyPage (stats : SizePoolStats) : SizePoolStats :=
  { stats with emptyPages := stats.emptyPages + 1 }

/-- `SizePoolStats::remove_empty_page`. -/
def removeEmptyPage (stats : SizePoolStats) : SizePoolStats :=
  { stats with emptyPages := stats.emptyPages - 1 }

/-- The counter of `SizePoolStats::add_reserved_buffer`; the bytes it reserves in the pool's
stats are added by `PagedPoolInner.addReservedBuffer`. -/
def addReservedBuffer (stats : SizePoolStats) (kind : BufferKind) : SizePoolStats :=
  { stats with
    reservedBuffers := Function.update stats.reservedBuffers kind (stats.reservedBuffers kind + 1) }

/-- The counter of `SizePoolStats::remove_reserved_buffer`. -/
def removeReservedBuffer (stats : SizePoolStats) (kind : BufferKind) : SizePoolStats :=
  { stats with
    reservedBuffers := Function.update stats.reservedBuffers kind (stats.reservedBuffers kind - 1) }

end SizePoolStats

/-- `FULL_MASK`. -/
def fullMask : BitVec 16 := BitVec.allOnes 16

/-- `PageStatus`. -/
inductive PageStatus
  | empty
  | nonEmpty
  deriving DecidableEq, Repr

/-- `consume`: the index of the first free buffer, the status of the page before, and the mask
with that buffer taken; `none` when the page is full. -/
def consume (bitmask : BitVec 16) : Option (ℕ × PageStatus × BitVec 16) :=
  if bitmask ≠ fullMask then
    let pageStatus := if bitmask = 0 then PageStatus.empty else PageStatus.nonEmpty
    (List.range 16).findSome? fun index =>
      let mask := 1#16 <<< index
      if bitmask &&& mask = 0 then some (index, pageStatus, bitmask ||| mask) else none
  else none

/-- `PageInner`: the reserved bitmask, and the size pool whose `SizePoolStats` it shares. Its
memory (`bytes`, `last_buffer`, `layout`) is left out: a buffer is known by its index. -/
structure Page where
  reservedBitmask : BitVec 16
  sizePool : ℕ

/-- `PagedBufferPtr`: the buffer at `index` of page `page`, whose pointer is the page's memory
plus `index * buffer_size`. -/
structure PagedBufferPtr where
  page : ℕ
  index : ℕ
  kind : BufferKind
  deriving DecidableEq, Repr

/-- `FreeBuffer`, by the length of its data. -/
structure FreeBuffer where
  size : ℕ
  kind : BufferKind
  deriving DecidableEq, Repr

/-- `PoolBufferInner`. -/
inductive PoolBufferInner
  | primary (bufferPtr : PagedBufferPtr) (size : ℕ)
  | secondary (buffer : FreeBuffer)
  deriving DecidableEq, Repr

namespace PoolBufferInner

/-- The kind a buffer was reserved for. -/
def kind : PoolBufferInner → BufferKind
  | .primary bufferPtr _ => bufferPtr.kind
  | .secondary buffer => buffer.kind

/-- The slot, page and index, a primary buffer occupies. -/
def slot : PoolBufferInner → Option (ℕ × ℕ)
  | .primary bufferPtr _ => some (bufferPtr.page, bufferPtr.index)
  | .secondary _ => none

end PoolBufferInner

/-- `SizePool`: its pages, by number, and its stats. -/
structure SizePool where
  pages : List ℕ
  stats : SizePoolStats

/-- `PagedPoolInner`, with the pages its size pools point to: `heap` holds every page allocated
so far, numbered in the order of allocation, and `nextPage` is the number of the next one. -/
structure PagedPoolInner where
  orderedSizePools : List SizePool
  stats : PoolStats
  heap : ℕ → Option Page
  nextPage : ℕ

namespace PagedPoolInner

/-- The `PagedPoolInner` that `new_with_candidate_sizes` builds: a size pool with no page for
each buffer size. -/
def new (sizes : PagedPool) : PagedPoolInner where
  orderedSizePools := sizes.orderedSizePools.map fun bufferSize => ⟨[], .new bufferSize⟩
  stats := ⟨fun _ => 0⟩
  heap := fun _ => none
  nextPage := 0

variable (pool : PagedPoolInner)

/-- Apply `f` to the stats of size pool `k`. -/
def modifyStats (k : ℕ) (f : SizePoolStats → SizePoolStats) : PagedPoolInner :=
  { pool with orderedSizePools := pool.orderedSizePools.modify k fun sp => { sp with stats := f sp.stats } }

/-- Apply `f` to the pages of size pool `k`. -/
def modifyPages (k : ℕ) (f : List ℕ → List ℕ) : PagedPoolInner :=
  { pool with orderedSizePools := pool.orderedSizePools.modify k fun sp => { sp with pages := f sp.pages } }

/-- Set the reserved bitmask of page `id`. -/
def setBitmask (id : ℕ) (bitmask : BitVec 16) : PagedPoolInner :=
  { pool with
    heap := Function.update pool.heap id
      ((pool.heap id).map fun page => { page with reservedBitmask := bitmask }) }

/-- The `buffer_size` of size pool `k`. -/
def bufferSize (k : ℕ) : ℕ := (pool.orderedSizePools[k]?.map (·.stats.bufferSize)).getD 0

/-- `PagedBufferPtr::size`: the buffer size of the size pool of its page. -/
def ptrSize (bufferPtr : PagedBufferPtr) : ℕ :=
  ((pool.heap bufferPtr.page).map fun page => pool.bufferSize page.sizePool).getD 0

/-- `SizePoolStats::add_reserved_buffer` on size pool `k`: its counter, and the bytes of its
buffer size in the pool's stats. -/
def addReservedBuffer (k : ℕ) (kind : BufferKind) : PagedPoolInner :=
  { pool.modifyStats k (·.addReservedBuffer kind) with
    stats := pool.stats.reserveBytes (pool.bufferSize k) kind }

/-- `SizePoolStats::remove_reserved_buffer` on size pool `k`. -/
def removeReservedBuffer (k : ℕ) (kind : BufferKind) : PagedPoolInner :=
  { pool.modifyStats k (·.removeReservedBuffer kind) with
    stats := pool.stats.releaseBytes (pool.bufferSize k) kind }

/-- `Page::try_reserve` on page `id`. -/
def tryReserve (id : ℕ) (kind : BufferKind) : Option (PagedBufferPtr × PagedPoolInner) := do
  let page ← pool.heap id
  let (index, pageStatus, bitmask) ← consume page.reservedBitmask
  let pool := pool.setBitmask id bitmask
  let pool := match pageStatus with
    | .empty => pool.modifyStats page.sizePool SizePoolStats.removeEmptyPage
    | .nonEmpty => pool
  some (⟨id, index, kind⟩, pool.addReservedBuffer page.sizePool kind)

/-- `Page::release` of a buffer; `none` where it asserts that the pointer does not belong to
the page. -/
def release (bufferPtr : PagedBufferPtr) : Option PagedPoolInner := do
  let page ← pool.heap bufferPtr.page
  -- `ptr <= last_buffer`: the index is one of the page's sixteen
  if bufferPtr.index < 16 then
    let bitmask := page.reservedBitmask &&& ~~~(1#16 <<< bufferPtr.index)
    let pool := (pool.setBitmask bufferPtr.page bitmask).removeReservedBuffer page.sizePool
      bufferPtr.kind
    some (if bitmask = 0 then pool.modifyStats page.sizePool SizePoolStats.addEmptyPage else pool)
  else none

/-- `Page::invalidate_if_empty` on page `id`: whether it invalidated the page. -/
def invalidateIfEmpty (id : ℕ) : Bool × PagedPoolInner :=
  match pool.heap id with
  | none => (false, pool)
  | some page =>
    if page.reservedBitmask ≠ 0 then (false, pool)
    else (true, (pool.modifyStats page.sizePool SizePoolStats.removeEmptyPage).setBitmask id fullMask)

/-- `Page::new` for size pool `k`, counted as an empty page; `none` where
`assert_ne!(stats.buffer_size, 0)` fails. -/
def newPage (k : ℕ) : Option (ℕ × PagedPoolInner) :=
  if pool.bufferSize k = 0 then none
  else
    let pool := pool.modifyStats k SizePoolStats.addEmptyPage
    some (pool.nextPage,
      { pool with
        heap := Function.update pool.heap pool.nextPage (some ⟨0, k⟩)
        nextPage := pool.nextPage + 1 })

/-- `SizePool::try_get_buffer_ptr`: `find_map` of `try_reserve` over the pages. A page that is
full leaves the pool as it is, so only the page that serves the request changes it. -/
def tryGetBufferPtr (pages : List ℕ) (kind : BufferKind) : Option (PagedBufferPtr × PagedPoolInner) :=
  pages.findSome? fun id => pool.tryReserve id kind

/-- The pages of size pool `k`. -/
def pagesOf (k : ℕ) : List ℕ := (pool.orderedSizePools[k]?.map (·.pages)).getD []

/-- `SizePool::reserve` on size pool `k`; `none` where `Page::new` or the `unwrap` of the new
page's `try_reserve` panics. -/
def reserve (k : ℕ) (kind : BufferKind) : Option (PagedBufferPtr × PagedPoolInner) :=
  -- the fast path, under the read lock
  match pool.tryGetBufferPtr (pool.pagesOf k) kind with
  | some r => some r
  | none =>
    -- the slow path looks at the pages again under the write lock, then adds a page
    match pool.tryGetBufferPtr (pool.pagesOf k) kind with
    | some r => some r
    | none => do
      let (id, pool) ← pool.newPage k
      let (bufferPtr, pool) ← pool.tryReserve id kind
      some (bufferPtr, pool.modifyPages k (· ++ [id]))

/-- `PagedPoolInner::get_pool_for_size`, giving the index of the size pool it returns. -/
def getPoolForSize (size : ℕ) : Option ℕ :=
  if size = 0 then none
  else
    let index := partitionPoint pool.orderedSizePools fun sp => sp.stats.bufferSize < size
    if index = pool.orderedSizePools.length then none else some index

/-- `PagedPool::get_buffer`; `none` where it panics. -/
def getBuffer (size : ℕ) (kind : BufferKind) : Option (PoolBufferInner × PagedPoolInner) :=
  match pool.getPoolForSize size with
  | some k => do
    let (bufferPtr, pool) ← pool.reserve k kind
    -- `PoolBuffer::new_primary` asserts that the size fits the buffer
    if size ≤ pool.ptrSize bufferPtr then some (.primary bufferPtr size, pool) else none
  | none => some (.secondary ⟨size, kind⟩, { pool with stats := pool.stats.reserveBytes size kind })

/-- Dropping a buffer: `PagedBufferPtr::drop` releases a primary buffer to its page, and
`FreeBuffer::drop` gives back the bytes of a secondary one. -/
def drop : PoolBufferInner → Option PagedPoolInner
  | .primary bufferPtr _ => pool.release bufferPtr
  | .secondary buffer => some { pool with stats := pool.stats.releaseBytes buffer.size buffer.kind }

/-- `Vec::retain` in `trim`: visits the pages in order and keeps those that
`invalidate_if_empty` does not invalidate. -/
def retainPages : PagedPoolInner → List ℕ → List ℕ × PagedPoolInner
  | pool, [] => ([], pool)
  | pool, id :: ids =>
    let (invalidated, pool) := pool.invalidateIfEmpty id
    let (kept, pool) := retainPages pool ids
    (if invalidated then kept else id :: kept, pool)

/-- The turn of size pool `k` in `PagedPoolInner::trim`: whether it freed a page. -/
def trimSizePool (k : ℕ) : Bool × PagedPoolInner :=
  match pool.orderedSizePools[k]? with
  | none => (false, pool)
  | some sizePool =>
    if sizePool.stats.emptyPages = 0 then (false, pool)
    else
      let (kept, pool) := pool.retainPages sizePool.pages
      (decide (kept.length < sizePool.pages.length), pool.modifyPages k fun _ => kept)

/-- `PagedPoolInner::trim`. -/
def trim : Bool × PagedPoolInner :=
  (List.range pool.orderedSizePools.length).foldl
    (fun (removed, pool) k =>
      let (freed, pool) := pool.trimSizePool k
      (removed || freed, pool))
    (false, pool)

end PagedPoolInner

/-! ## What each operation does -/

theorem consume_eq_none_iff {bitmask : BitVec 16} : consume bitmask = none ↔ bitmask = fullMask := by
  unfold consume
  by_cases hfull : bitmask ≠ fullMask
  · rw [if_pos hfull, iff_false_right hfull, List.findSome?_eq_none_iff]
    intro hall
    -- a mask that is not full has a free index, and the loop stops there
    obtain ⟨i, hi, hfree⟩ := exists_getLsbD_eq_false bitmask hfull
    have hzero : bitmask &&& 1#16 <<< i = 0 := by
      rw [← BitVec.twoPow_eq]
      exact (and_twoPow_eq_zero_iff bitmask hi).2 hfree
    simpa [hzero] using hall i (List.mem_range.2 hi)
  · rw [if_neg hfull]
    exact ⟨fun _ => not_not.1 hfull, fun _ => rfl⟩

/-- `consume` takes the first free index, sets its bit, and reports whether the page was empty. -/
theorem consume_spec {bitmask bitmask' : BitVec 16} {index : ℕ} {pageStatus : PageStatus}
    (h : consume bitmask = some (index, pageStatus, bitmask')) :
    index < 16 ∧ bitmask.getLsbD index = false ∧ bitmask' = bitmask ||| BitVec.twoPow 16 index ∧
      (pageStatus = .empty ↔ bitmask = 0) := by
  unfold consume at h
  by_cases hfull : bitmask ≠ fullMask
  swap
  · rw [if_neg hfull] at h
    cases h
  rw [if_pos hfull] at h
  generalize hst : (if bitmask = 0 then PageStatus.empty else PageStatus.nonEmpty) = st at h
  obtain ⟨l₁, i, l₂, hsplit, hi, -⟩ := List.findSome?_eq_some_iff.1 h
  have hlt : i < 16 := List.mem_range.1 (hsplit ▸ List.mem_append_right _ List.mem_cons_self)
  by_cases hfree : bitmask &&& 1#16 <<< i = 0
  swap
  · simp only [if_neg hfree] at hi
    cases hi
  simp only [if_pos hfree, Option.some.injEq, Prod.mk.injEq] at hi
  obtain ⟨rfl, rfl, rfl⟩ := hi
  rw [← BitVec.twoPow_eq] at hfree ⊢
  refine ⟨hlt, (and_twoPow_eq_zero_iff bitmask hlt).1 hfree, rfl, ?_⟩
  rw [← hst]
  split_ifs with hz
  · simp [hz]
  · simp only [false_iff]
    exact hz

example : consume 0b1011#16 = some (2, .nonEmpty, 0b1111#16) := by decide

namespace SizePoolStats

variable (stats : SizePoolStats) (kind : BufferKind)

@[simp] theorem addEmptyPage_bufferSize : stats.addEmptyPage.bufferSize = stats.bufferSize := rfl
@[simp] theorem addEmptyPage_emptyPages : stats.addEmptyPage.emptyPages = stats.emptyPages + 1 := rfl
@[simp] theorem addEmptyPage_reservedBuffers :
    stats.addEmptyPage.reservedBuffers = stats.reservedBuffers := rfl
@[simp] theorem removeEmptyPage_bufferSize : stats.removeEmptyPage.bufferSize = stats.bufferSize := rfl
@[simp] theorem removeEmptyPage_emptyPages :
    stats.removeEmptyPage.emptyPages = stats.emptyPages - 1 := rfl
@[simp] theorem removeEmptyPage_reservedBuffers :
    stats.removeEmptyPage.reservedBuffers = stats.reservedBuffers := rfl
@[simp] theorem addReservedBuffer_bufferSize :
    (stats.addReservedBuffer kind).bufferSize = stats.bufferSize := rfl
@[simp] theorem addReservedBuffer_emptyPages :
    (stats.addReservedBuffer kind).emptyPages = stats.emptyPages := rfl
@[simp] theorem addReservedBuffer_reservedBuffers : (stats.addReservedBuffer kind).reservedBuffers =
    Function.update stats.reservedBuffers kind (stats.reservedBuffers kind + 1) := rfl
@[simp] theorem removeReservedBuffer_bufferSize :
    (stats.removeReservedBuffer kind).bufferSize = stats.bufferSize := rfl
@[simp] theorem removeReservedBuffer_emptyPages :
    (stats.removeReservedBuffer kind).emptyPages = stats.emptyPages := rfl
@[simp] theorem removeReservedBuffer_reservedBuffers : (stats.removeReservedBuffer kind).reservedBuffers =
    Function.update stats.reservedBuffers kind (stats.reservedBuffers kind - 1) := rfl

end SizePoolStats

namespace PagedPoolInner

variable (pool : PagedPoolInner)

/-- The stats of size pool `k`. -/
def statsOf (k : ℕ) : SizePoolStats := (pool.orderedSizePools[k]?.map (·.stats)).getD (.new 0)

/-- Page `id` is one of the pages of a size pool. -/
def Listed (id : ℕ) : Prop := ∃ k, id ∈ pool.pagesOf k

/-- Whether page `id` is allocated and has no buffer reserved. -/
def isEmptyPage (id : ℕ) : Bool := (pool.heap id).any fun page => decide (page.reservedBitmask = 0)

/-- The size pool of the page of a primary buffer. -/
def sizePoolOf : PoolBufferInner → Option ℕ
  | .primary bufferPtr _ => (pool.heap bufferPtr.page).map (·.sizePool)
  | .secondary _ => none

/-- The bytes a buffer stands for in `PoolStats`: the buffer size of its page's size pool for a
primary buffer, its own size for a secondary one. -/
def reservedSize : PoolBufferInner → ℕ
  | .primary bufferPtr _ => pool.ptrSize bufferPtr
  | .secondary buffer => buffer.size

theorem bufferSize_eq (k : ℕ) : pool.bufferSize k = (pool.statsOf k).bufferSize := by
  unfold bufferSize statsOf
  cases pool.orderedSizePools[k]? <;> rfl

theorem pagesOf_eq_nil {k : ℕ} (hk : pool.orderedSizePools.length ≤ k) : pool.pagesOf k = [] := by
  simp [pagesOf, List.getElem?_eq_none hk]

theorem lt_length_of_mem_pagesOf {k id : ℕ} (h : id ∈ pool.pagesOf k) :
    k < pool.orderedSizePools.length := by
  by_contra hk
  simp [pool.pagesOf_eq_nil (Nat.le_of_not_lt hk)] at h

/-! ### The primitive updates, observation by observation -/

variable {pool} {k : ℕ}

section Modify

variable (f : SizePoolStats → SizePoolStats) (g : List ℕ → List ℕ) (j : ℕ)

@[simp] theorem length_modifyStats :
    (pool.modifyStats k f).orderedSizePools.length = pool.orderedSizePools.length :=
  List.length_modify ..

@[simp] theorem pagesOf_modifyStats : (pool.modifyStats k f).pagesOf j = pool.pagesOf j := by
  by_cases hjk : j = k
  · subst hjk
    cases h : pool.orderedSizePools[j]? <;> simp [pagesOf, modifyStats, h]
  · simp [pagesOf, modifyStats, Ne.symm hjk]

theorem statsOf_modifyStats (hk : k < pool.orderedSizePools.length) :
    (pool.modifyStats k f).statsOf j = if j = k then f (pool.statsOf k) else pool.statsOf j := by
  by_cases hjk : j = k
  · subst hjk
    simp [statsOf, modifyStats, List.getElem?_eq_getElem hk]
  · simp [statsOf, modifyStats, hjk, Ne.symm hjk]

theorem bufferSize_modifyStats (hf : ∀ st, (f st).bufferSize = st.bufferSize) :
    (pool.modifyStats k f).bufferSize j = pool.bufferSize j := by
  by_cases hjk : j = k
  · subst hjk
    cases h : pool.orderedSizePools[j]? <;> simp [bufferSize, modifyStats, h, hf]
  · simp [bufferSize, modifyStats, Ne.symm hjk]

@[simp] theorem heap_modifyStats : (pool.modifyStats k f).heap = pool.heap := rfl
@[simp] theorem stats_modifyStats : (pool.modifyStats k f).stats = pool.stats := rfl
@[simp] theorem nextPage_modifyStats : (pool.modifyStats k f).nextPage = pool.nextPage := rfl

@[simp] theorem length_modifyPages :
    (pool.modifyPages k g).orderedSizePools.length = pool.orderedSizePools.length :=
  List.length_modify ..

theorem pagesOf_modifyPages (hk : k < pool.orderedSizePools.length) :
    (pool.modifyPages k g).pagesOf j = if j = k then g (pool.pagesOf k) else pool.pagesOf j := by
  by_cases hjk : j = k
  · subst hjk
    simp [pagesOf, modifyPages, List.getElem?_eq_getElem hk]
  · simp [pagesOf, modifyPages, hjk, Ne.symm hjk]

@[simp] theorem statsOf_modifyPages : (pool.modifyPages k g).statsOf j = pool.statsOf j := by
  by_cases hjk : j = k
  · subst hjk
    cases h : pool.orderedSizePools[j]? <;> simp [statsOf, modifyPages, h]
  · simp [statsOf, modifyPages, Ne.symm hjk]

@[simp] theorem heap_modifyPages : (pool.modifyPages k g).heap = pool.heap := rfl
@[simp] theorem stats_modifyPages : (pool.modifyPages k g).stats = pool.stats := rfl
@[simp] theorem nextPage_modifyPages : (pool.modifyPages k g).nextPage = pool.nextPage := rfl

end Modify

section SetBitmask

variable (id : ℕ) (bitmask : BitVec 16)

@[simp] theorem length_setBitmask :
    (pool.setBitmask id bitmask).orderedSizePools.length = pool.orderedSizePools.length := rfl
@[simp] theorem pagesOf_setBitmask (j : ℕ) : (pool.setBitmask id bitmask).pagesOf j = pool.pagesOf j :=
  rfl
@[simp] theorem statsOf_setBitmask (j : ℕ) : (pool.setBitmask id bitmask).statsOf j = pool.statsOf j :=
  rfl
@[simp] theorem bufferSize_setBitmask (j : ℕ) :
    (pool.setBitmask id bitmask).bufferSize j = pool.bufferSize j := rfl
@[simp] theorem stats_setBitmask : (pool.setBitmask id bitmask).stats = pool.stats := rfl
@[simp] theorem nextPage_setBitmask : (pool.setBitmask id bitmask).nextPage = pool.nextPage := rfl

theorem heap_setBitmask : (pool.setBitmask id bitmask).heap = Function.update pool.heap id
    ((pool.heap id).map fun page => { page with reservedBitmask := bitmask }) := rfl

end SetBitmask

section Reserved

variable (kind : BufferKind) (j : ℕ)

@[simp] theorem length_addReservedBuffer :
    (pool.addReservedBuffer k kind).orderedSizePools.length = pool.orderedSizePools.length :=
  List.length_modify ..
@[simp] theorem pagesOf_addReservedBuffer : (pool.addReservedBuffer k kind).pagesOf j = pool.pagesOf j :=
  @pagesOf_modifyStats pool k (fun st => st.addReservedBuffer kind) j
theorem statsOf_addReservedBuffer (hk : k < pool.orderedSizePools.length) :
    (pool.addReservedBuffer k kind).statsOf j =
      if j = k then (pool.statsOf k).addReservedBuffer kind else pool.statsOf j :=
  @statsOf_modifyStats pool k (fun st => st.addReservedBuffer kind) j hk
@[simp] theorem bufferSize_addReservedBuffer :
    (pool.addReservedBuffer k kind).bufferSize j = pool.bufferSize j :=
  @bufferSize_modifyStats pool k (fun st => st.addReservedBuffer kind) j fun _ => rfl
@[simp] theorem heap_addReservedBuffer : (pool.addReservedBuffer k kind).heap = pool.heap := rfl
@[simp] theorem stats_addReservedBuffer :
    (pool.addReservedBuffer k kind).stats = pool.stats.reserveBytes (pool.bufferSize k) kind := rfl
@[simp] theorem nextPage_addReservedBuffer :
    (pool.addReservedBuffer k kind).nextPage = pool.nextPage := rfl

@[simp] theorem length_removeReservedBuffer :
    (pool.removeReservedBuffer k kind).orderedSizePools.length = pool.orderedSizePools.length :=
  List.length_modify ..
@[simp] theorem pagesOf_removeReservedBuffer :
    (pool.removeReservedBuffer k kind).pagesOf j = pool.pagesOf j :=
  @pagesOf_modifyStats pool k (fun st => st.removeReservedBuffer kind) j
theorem statsOf_removeReservedBuffer (hk : k < pool.orderedSizePools.length) :
    (pool.removeReservedBuffer k kind).statsOf j =
      if j = k then (pool.statsOf k).removeReservedBuffer kind else pool.statsOf j :=
  @statsOf_modifyStats pool k (fun st => st.removeReservedBuffer kind) j hk
@[simp] theorem bufferSize_removeReservedBuffer :
    (pool.removeReservedBuffer k kind).bufferSize j = pool.bufferSize j :=
  @bufferSize_modifyStats pool k (fun st => st.removeReservedBuffer kind) j fun _ => rfl
@[simp] theorem heap_removeReservedBuffer : (pool.removeReservedBuffer k kind).heap = pool.heap := rfl
@[simp] theorem stats_removeReservedBuffer :
    (pool.removeReservedBuffer k kind).stats = pool.stats.releaseBytes (pool.bufferSize k) kind := rfl
@[simp] theorem nextPage_removeReservedBuffer :
    (pool.removeReservedBuffer k kind).nextPage = pool.nextPage := rfl

end Reserved

/-- Marking a page and counting in a size pool commute with changing a size pool's pages. -/
theorem modifyStats_modifyPages (k' : ℕ) (f : SizePoolStats → SizePoolStats) (g : List ℕ → List ℕ) :
    (pool.modifyPages k g).modifyStats k' f = (pool.modifyStats k' f).modifyPages k g := by
  unfold modifyStats modifyPages
  by_cases hk : k = k'
  · subst hk
    simp only [List.modify_modify_eq]
    rfl
  · simp only [List.modify_modify_ne _ _ _ hk]

theorem bufferSize_modifyPages (g : List ℕ → List ℕ) (j : ℕ) :
    (pool.modifyPages k g).bufferSize j = pool.bufferSize j := by
  rw [bufferSize_eq, bufferSize_eq, statsOf_modifyPages]

theorem tryReserve_modifyPages (g : List ℕ → List ℕ) (id : ℕ) (kind : BufferKind) :
    (pool.modifyPages k g).tryReserve id kind =
      (pool.tryReserve id kind).map fun r => (r.1, r.2.modifyPages k g) := by
  unfold tryReserve
  cases hpage : pool.heap id with
  | none => simp [hpage]
  | some page =>
    cases hc : consume page.reservedBitmask with
    | none => simp [hpage, hc]
    | some r =>
      obtain ⟨index, pageStatus, bitmask⟩ := r
      have hset : (pool.modifyPages k g).setBitmask id bitmask =
          (pool.setBitmask id bitmask).modifyPages k g := rfl
      -- what is left is the same record built in two orders
      cases pageStatus <;>
        simp [hpage, hc, hset, addReservedBuffer, modifyStats_modifyPages, bufferSize_modifyPages] <;>
        rfl

/-! ### The page operations -/

variable {id : ℕ} {kind : BufferKind} {pool' : PagedPoolInner}

/-- `try_reserve` takes the first free buffer of an allocated page: it sets its bit, counts the
buffer in the page's size pool and its bytes in the pool, and stops counting the page as empty
if it was. Nothing else changes. -/
theorem tryReserve_spec {bufferPtr : PagedBufferPtr} (h : pool.tryReserve id kind = some (bufferPtr, pool')) :
    ∃ page index, pool.heap id = some page ∧ index < 16 ∧ page.reservedBitmask.getLsbD index = false ∧
      bufferPtr = ⟨id, index, kind⟩ ∧
      pool'.heap = Function.update pool.heap id
        (some { page with reservedBitmask := page.reservedBitmask ||| BitVec.twoPow 16 index }) ∧
      (page.sizePool < pool.orderedSizePools.length → ∀ j, pool'.statsOf j =
        if j = page.sizePool then
          (if page.reservedBitmask = 0 then (pool.statsOf j).removeEmptyPage else pool.statsOf j).addReservedBuffer kind
        else pool.statsOf j) ∧
      pool'.stats = pool.stats.reserveBytes (pool.bufferSize page.sizePool) kind ∧
      (∀ j, pool'.pagesOf j = pool.pagesOf j) ∧ (∀ j, pool'.bufferSize j = pool.bufferSize j) ∧
      pool'.orderedSizePools.length = pool.orderedSizePools.length ∧ pool'.nextPage = pool.nextPage := by
  unfold tryReserve at h
  cases hpage : pool.heap id with
  | none => simp [hpage] at h
  | some page =>
    cases hc : consume page.reservedBitmask with
    | none => simp [hpage, hc] at h
    | some r =>
      obtain ⟨index, pageStatus, bitmask⟩ := r
      obtain ⟨hlt, hfree, rfl, hstatus⟩ := consume_spec hc
      refine ⟨page, index, rfl, hlt, hfree, ?_⟩
      -- the two statuses differ only in the count of empty pages
      cases pageStatus with
      | empty =>
        have hzero : page.reservedBitmask = 0 := hstatus.1 rfl
        simp only [hpage, hc, Option.bind_eq_bind, Option.bind_some, Option.some.injEq,
          Prod.mk.injEq] at h
        obtain ⟨rfl, rfl⟩ := h
        have hsize : ∀ j, ((pool.setBitmask id (page.reservedBitmask ||| BitVec.twoPow 16 index)).modifyStats
            page.sizePool SizePoolStats.removeEmptyPage).bufferSize j = pool.bufferSize j := fun j => by
          rw [bufferSize_modifyStats SizePoolStats.removeEmptyPage j fun _ => rfl, bufferSize_setBitmask]
        refine ⟨rfl, by simp [heap_setBitmask, hpage], fun hk j => ?_, by simp [hsize], by simp,
          fun j => by simp [hsize], by simp, by simp⟩
        have hk' : page.sizePool < (pool.setBitmask id
            (page.reservedBitmask ||| BitVec.twoPow 16 index)).orderedSizePools.length := hk
        rw [statsOf_addReservedBuffer _ _ (by simpa using hk'), statsOf_modifyStats _ _ hk']
        by_cases hj : j = page.sizePool
        · subst hj
          rw [if_pos rfl, if_pos rfl, if_pos rfl, if_pos hzero, statsOf_setBitmask]
        · rw [if_neg hj, if_neg hj, statsOf_modifyStats _ _ hk', if_neg hj, statsOf_setBitmask]
      | nonEmpty =>
        have hne : page.reservedBitmask ≠ 0 := fun hz => nomatch hstatus.2 hz
        simp only [hpage, hc, Option.bind_eq_bind, Option.bind_some, Option.some.injEq,
          Prod.mk.injEq] at h
        obtain ⟨rfl, rfl⟩ := h
        refine ⟨rfl, by simp [heap_setBitmask, hpage], fun hk j => ?_, by simp, by simp, by simp,
          by simp, by simp⟩
        rw [statsOf_addReservedBuffer _ _ (by simpa using hk)]
        by_cases hj : j = page.sizePool
        · subst hj
          rw [if_pos rfl, if_pos rfl, if_neg hne, statsOf_setBitmask]
        · rw [if_neg hj, if_neg hj, statsOf_setBitmask]

/-- `release` clears the buffer's bit, uncounts the buffer and its bytes, and counts the page as
empty again if that was its last buffer. It never panics for a buffer of an allocated page. -/
theorem release_spec {bufferPtr : PagedBufferPtr} {page : Page} (hpage : pool.heap bufferPtr.page = some page)
    (hindex : bufferPtr.index < 16) :
    ∃ pool', pool.release bufferPtr = some pool' ∧
      pool'.heap = Function.update pool.heap bufferPtr.page
        (some { page with reservedBitmask := page.reservedBitmask &&& ~~~BitVec.twoPow 16 bufferPtr.index }) ∧
      (page.sizePool < pool.orderedSizePools.length → ∀ j, pool'.statsOf j =
        if j = page.sizePool then
          (if page.reservedBitmask &&& ~~~BitVec.twoPow 16 bufferPtr.index = 0 then
            ((pool.statsOf j).removeReservedBuffer bufferPtr.kind).addEmptyPage
          else (pool.statsOf j).removeReservedBuffer bufferPtr.kind)
        else pool.statsOf j) ∧
      pool'.stats = pool.stats.releaseBytes (pool.bufferSize page.sizePool) bufferPtr.kind ∧
      (∀ j, pool'.pagesOf j = pool.pagesOf j) ∧ (∀ j, pool'.bufferSize j = pool.bufferSize j) ∧
      pool'.orderedSizePools.length = pool.orderedSizePools.length ∧ pool'.nextPage = pool.nextPage := by
  set bitmask := page.reservedBitmask &&& ~~~BitVec.twoPow 16 bufferPtr.index with hbitmask
  set pool₁ := (pool.setBitmask bufferPtr.page bitmask).removeReservedBuffer page.sizePool bufferPtr.kind
  have hrelease : pool.release bufferPtr =
      some (if bitmask = 0 then pool₁.modifyStats page.sizePool SizePoolStats.addEmptyPage else pool₁) := by
    simp [release, hpage, hindex, hbitmask, pool₁, BitVec.twoPow_eq]
  have hstats₁ : page.sizePool < pool.orderedSizePools.length → ∀ j, pool₁.statsOf j =
      if j = page.sizePool then (pool.statsOf j).removeReservedBuffer bufferPtr.kind else pool.statsOf j := by
    intro hk j
    rw [statsOf_removeReservedBuffer _ _ (by simpa using hk)]
    by_cases hj : j = page.sizePool
    · subst hj
      rw [if_pos rfl, if_pos rfl, statsOf_setBitmask]
    · rw [if_neg hj, if_neg hj, statsOf_setBitmask]
  refine ⟨_, hrelease, ?_⟩
  -- the page counts as empty again exactly when the cleared mask is zero
  by_cases hzero : bitmask = 0
  · rw [if_pos hzero]
    refine ⟨by simp [pool₁, heap_setBitmask, hpage], fun hk j => ?_, by simp [pool₁], by simp [pool₁],
      fun j => ?_, by simp [pool₁], by simp [pool₁]⟩
    · rw [statsOf_modifyStats _ _ (by simpa [pool₁] using hk), hstats₁ hk]
      by_cases hj : j = page.sizePool
      · subst hj
        rw [if_pos rfl, if_pos rfl, if_pos rfl, if_pos hzero]
      · rw [if_neg hj, if_neg hj, hstats₁ hk, if_neg hj]
    · rw [bufferSize_modifyStats SizePoolStats.addEmptyPage j fun _ => rfl]
      simp [pool₁]
  · rw [if_neg hzero]
    refine ⟨by simp [pool₁, heap_setBitmask, hpage], fun hk j => ?_, by simp [pool₁], by simp [pool₁],
      by simp [pool₁], by simp [pool₁], by simp [pool₁]⟩
    rw [hstats₁ hk]
    by_cases hj : j = page.sizePool
    · subst hj
      rw [if_pos rfl, if_pos rfl, if_neg hzero]
    · rw [if_neg hj, if_neg hj]

theorem invalidateIfEmpty_of_ne (h : ∀ page, pool.heap id = some page → page.reservedBitmask ≠ 0) :
    pool.invalidateIfEmpty id = (false, pool) := by
  unfold invalidateIfEmpty
  cases hpage : pool.heap id with
  | none => rfl
  | some page =>
    dsimp only
    rw [if_pos (h page hpage)]

theorem invalidateIfEmpty_of_eq {page : Page} (hpage : pool.heap id = some page)
    (hzero : page.reservedBitmask = 0) : pool.invalidateIfEmpty id =
      (true, (pool.modifyStats page.sizePool SizePoolStats.removeEmptyPage).setBitmask id fullMask) := by
  simp [invalidateIfEmpty, hpage, hzero]

/-- `Page::new` allocates the next page number, empty and counted as such, for a size pool of
positive buffer size. -/
theorem newPage_spec (hk : 0 < pool.bufferSize k) :
    ∃ pool', pool.newPage k = some (pool.nextPage, pool') ∧
      pool'.heap = Function.update pool.heap pool.nextPage (some ⟨0, k⟩) ∧
      (∀ j, pool'.statsOf j = if j = k then (pool.statsOf k).addEmptyPage else pool.statsOf j) ∧
      pool'.stats = pool.stats ∧
      (∀ j, pool'.pagesOf j = pool.pagesOf j) ∧ (∀ j, pool'.bufferSize j = pool.bufferSize j) ∧
      pool'.orderedSizePools.length = pool.orderedSizePools.length ∧
      pool'.nextPage = pool.nextPage + 1 := by
  have hlt : k < pool.orderedSizePools.length := by
    by_contra hge
    simp [bufferSize, List.getElem?_eq_none (Nat.le_of_not_lt hge)] at hk
  refine ⟨{ pool.modifyStats k SizePoolStats.addEmptyPage with
      heap := Function.update pool.heap pool.nextPage (some ⟨0, k⟩), nextPage := pool.nextPage + 1 },
    by simp [newPage, Nat.pos_iff_ne_zero.1 hk], rfl, fun j => ?_, rfl, fun j => ?_, fun j => ?_,
    by simp, rfl⟩
  · exact statsOf_modifyStats _ j hlt
  · exact pagesOf_modifyStats _ j
  · exact bufferSize_modifyStats _ j fun _ => rfl

theorem isEmptyPage_congr {pool₁ pool₂ : PagedPoolInner} {id : ℕ} (h : pool₁.heap id = pool₂.heap id) :
    pool₁.isEmptyPage id = pool₂.isEmptyPage id := by
  simp [isEmptyPage, h]

theorem retainPages_cons (id : ℕ) (ids : List ℕ) : pool.retainPages (id :: ids) =
    (if (pool.invalidateIfEmpty id).1 then ((pool.invalidateIfEmpty id).2.retainPages ids).1
      else id :: ((pool.invalidateIfEmpty id).2.retainPages ids).1,
      ((pool.invalidateIfEmpty id).2.retainPages ids).2) := rfl

/-- The `retain` of `trim` over pages of size pool `k`, each listed once: it keeps the pages
with a buffer reserved, marks every empty page full, and stops counting it as empty. -/
theorem retainPages_spec (ids : List ℕ) (hnodup : ids.Nodup)
    (hpages : ∀ id ∈ ids, ∃ page, pool.heap id = some page ∧ page.sizePool = k)
    (hk : k < pool.orderedSizePools.length) :
    (pool.retainPages ids).1 = ids.filter (fun id => !pool.isEmptyPage id) ∧
      (∀ id, (pool.retainPages ids).2.heap id =
        if id ∈ ids ∧ pool.isEmptyPage id then
          (pool.heap id).map fun page => { page with reservedBitmask := fullMask }
        else pool.heap id) ∧
      (∀ j, (pool.retainPages ids).2.statsOf j =
        if j = k then
          { pool.statsOf k with emptyPages := (pool.statsOf k).emptyPages - ids.countP pool.isEmptyPage }
        else pool.statsOf j) ∧
      (pool.retainPages ids).2.stats = pool.stats ∧
      (∀ j, (pool.retainPages ids).2.pagesOf j = pool.pagesOf j) ∧
      (∀ j, (pool.retainPages ids).2.bufferSize j = pool.bufferSize j) ∧
      (pool.retainPages ids).2.orderedSizePools.length = pool.orderedSizePools.length ∧
      (pool.retainPages ids).2.nextPage = pool.nextPage := by
  -- induction on the pages visited, over the pool the earlier visits leave
  induction ids generalizing pool with
  | nil =>
    refine ⟨rfl, fun _ => by simp [retainPages], fun j => ?_, rfl, fun _ => rfl, fun _ => rfl, rfl, rfl⟩
    split_ifs with hj
    · subst hj
      rfl
    · rfl
  | cons id rest ih =>
    obtain ⟨page, hpage, hsize⟩ := hpages id List.mem_cons_self
    have hid : id ∉ rest := (List.nodup_cons.1 hnodup).1
    have hne : ∀ x ∈ rest, x ≠ id := fun x hx hxid => hid (hxid ▸ hx)
    by_cases hzero : page.reservedBitmask = 0
    · -- the page is empty: it is invalidated and dropped
      rw [retainPages_cons, invalidateIfEmpty_of_eq hpage hzero, if_pos rfl]
      set pool₁ := (pool.modifyStats page.sizePool SizePoolStats.removeEmptyPage).setBitmask id fullMask
      have hheap₁ : ∀ x, x ≠ id → pool₁.heap x = pool.heap x := fun x hx => by
        simp [pool₁, heap_setBitmask, hx]
      have hempty₁ : ∀ x ∈ rest, pool₁.isEmptyPage x = pool.isEmptyPage x := fun x hx =>
        isEmptyPage_congr (hheap₁ x (hne x hx))
      have hk₁ : k < pool₁.orderedSizePools.length := by simpa [pool₁] using hk
      obtain ⟨hkept, hheap, hstats, hpool, hpagesOf, hbuf, hlen, hnext⟩ :=
        @ih pool₁ (List.nodup_cons.1 hnodup).2
          (fun x hx => by rw [hheap₁ x (hne x hx)]; exact hpages x (List.mem_cons_of_mem _ hx)) hk₁
      have hemptyId : pool.isEmptyPage id = true := by simp [isEmptyPage, hpage, hzero]
      refine ⟨?_, fun x => ?_, fun j => ?_, by simpa [pool₁] using hpool, fun j => by simp [hpagesOf, pool₁],
        fun j => ?_, by simp [hlen, pool₁], by simp [hnext, pool₁]⟩
      · rw [hkept, List.filter_cons_of_neg (by simp [hemptyId])]
        exact List.filter_congr fun x hx => by rw [hempty₁ x hx]
      · rw [hheap x]
        by_cases hx : x = id
        · subst hx
          simp [hid, hemptyId, pool₁, heap_setBitmask, hpage]
        · have hmem : x ∈ id :: rest ↔ x ∈ rest := by simp [hx]
          by_cases hxr : x ∈ rest
          · simp [hmem, hxr, hempty₁ x hxr, hheap₁ x hx]
          · simp [hmem, hxr, hheap₁ x hx]
      · have hcount : rest.countP pool₁.isEmptyPage = rest.countP pool.isEmptyPage :=
          List.countP_congr fun x hx => by rw [hempty₁ x hx]
        have hstats₁ : ∀ j, pool₁.statsOf j =
            if j = k then (pool.statsOf k).removeEmptyPage else pool.statsOf j := fun j => by
          rw [← hsize]
          exact statsOf_modifyStats _ j (hsize ▸ hk)
        rw [hstats j, hstats₁, hstats₁ j, List.countP_cons_of_pos hemptyId, hcount]
        by_cases hj : j = k
        · subst hj
          simp [Nat.sub_sub, Nat.add_comm]
        · simp [hj]
      · rw [hbuf j, bufferSize_setBitmask, bufferSize_modifyStats SizePoolStats.removeEmptyPage j fun _ => rfl]
    · -- the page holds a buffer: it is kept and left as it is
      have hkeep : pool.invalidateIfEmpty id = (false, pool) := invalidateIfEmpty_of_ne fun p hp => by
        rw [hpage] at hp
        cases hp
        exact hzero
      have hemptyId : pool.isEmptyPage id = false := by simpa [isEmptyPage, hpage] using hzero
      obtain ⟨hkept, hheap, hstats, hpool, hpagesOf, hbuf, hlen, hnext⟩ :=
        ih (List.nodup_cons.1 hnodup).2 (fun x hx => hpages x (List.mem_cons_of_mem _ hx)) hk
      rw [retainPages_cons, hkeep, if_neg Bool.false_ne_true]
      refine ⟨?_, fun x => ?_, fun j => ?_, hpool, hpagesOf, hbuf, hlen, hnext⟩
      · rw [hkept, List.filter_cons_of_pos (by simp [hemptyId])]
      · rw [hheap x]
        by_cases hx : x = id
        · subst hx
          simp [hid, hemptyId]
        · simp [hx]
      · rw [hstats j, List.countP_cons_of_neg (by simp [hemptyId])]

/-! ### The size pool operations -/

theorem newPage_fst {id : ℕ} (h : pool.newPage k = some (id, pool')) : id = pool.nextPage := by
  unfold newPage at h
  split_ifs at h
  cases h
  rfl

theorem tryGetBufferPtr_spec {pages : List ℕ} {r : PagedBufferPtr × PagedPoolInner}
    (h : pool.tryGetBufferPtr pages kind = some r) : ∃ id ∈ pages, pool.tryReserve id kind = some r := by
  obtain ⟨l₁, id, l₂, rfl, hid, -⟩ := List.findSome?_eq_some_iff.1 h
  exact ⟨id, by simp, hid⟩

/-- A buffer of `reserve` comes from a page of the size pool, or from a new page added to it. -/
theorem reserve_spec {bufferPtr : PagedBufferPtr} (h : pool.reserve k kind = some (bufferPtr, pool')) :
    (∃ id ∈ pool.pagesOf k, pool.tryReserve id kind = some (bufferPtr, pool')) ∨
      ∃ pool₁, pool.newPage k = some (pool.nextPage, pool₁) ∧
        (pool₁.modifyPages k (· ++ [pool.nextPage])).tryReserve pool.nextPage kind =
          some (bufferPtr, pool') := by
  unfold reserve at h
  cases hfast : pool.tryGetBufferPtr (pool.pagesOf k) kind with
  | some r =>
    rw [hfast] at h
    cases h
    exact .inl (tryGetBufferPtr_spec hfast)
  | none =>
    -- the second look finds nothing either, and a page is added
    simp only [hfast] at h
    cases hnew : pool.newPage k with
    | none => simp [hnew] at h
    | some r₁ =>
      obtain ⟨id, pool₁⟩ := r₁
      obtain rfl := newPage_fst hnew
      cases hres : pool₁.tryReserve pool.nextPage kind with
      | none => simp [hnew, hres] at h
      | some r₂ =>
        obtain ⟨ptr, pool₂⟩ := r₂
        simp only [hnew, hres, Option.bind_eq_bind, Option.bind_some, Option.some.injEq,
          Prod.mk.injEq] at h
        obtain ⟨rfl, rfl⟩ := h
        exact .inr ⟨pool₁, rfl, by rw [tryReserve_modifyPages, hres]; rfl⟩

/-- The size pool `get_pool_for_size` picks is one of the pool's, and fits the size. -/
theorem getPoolForSize_spec {size : ℕ} (h : pool.getPoolForSize size = some k) :
    k < pool.orderedSizePools.length ∧ size ≤ pool.bufferSize k := by
  unfold getPoolForSize partitionPoint at h
  dsimp only at h
  split_ifs at h with hsize hlen
  cases h
  have hlt := lt_of_le_of_ne List.findIdx_le_length hlen
  -- the size pool at the partition point is the first whose buffer size is not below the size
  have hfit := List.findIdx_getElem (w := hlt)
  refine ⟨hlt, ?_⟩
  simpa [bufferSize, List.getElem?_eq_getElem hlt] using hfit

/-- `get_buffer` serves a size from the size pool `get_pool_for_size` picks, or from secondary
memory, whose bytes it counts at once. -/
theorem getBuffer_spec {size : ℕ} {buffer : PoolBufferInner}
    (h : pool.getBuffer size kind = some (buffer, pool')) :
    (∃ k bufferPtr, pool.getPoolForSize size = some k ∧ pool.reserve k kind = some (bufferPtr, pool') ∧
        buffer = .primary bufferPtr size) ∨
      (pool.getPoolForSize size = none ∧ buffer = .secondary ⟨size, kind⟩ ∧
        pool' = { pool with stats := pool.stats.reserveBytes size kind }) := by
  unfold getBuffer at h
  cases hk : pool.getPoolForSize size with
  | none =>
    simp only [hk, Option.some.injEq, Prod.mk.injEq] at h
    exact .inr ⟨rfl, h.1.symm, h.2.symm⟩
  | some k =>
    cases hres : pool.reserve k kind with
    | none => simp [hk, hres] at h
    | some r =>
      obtain ⟨bufferPtr, pool₁⟩ := r
      simp only [hk, hres, Option.bind_eq_bind, Option.bind_some] at h
      split_ifs at h
      simp only [Option.some.injEq, Prod.mk.injEq] at h
      obtain ⟨rfl, rfl⟩ := h
      exact .inl ⟨k, bufferPtr, rfl, hres, rfl⟩

/-- A size pool's turn in `trim` leaves the pool as it is, or keeps what `retain` keeps of its
pages. -/
theorem trimSizePool_cases (k : ℕ) :
    (pool.trimSizePool k).2 = pool ∨
      k < pool.orderedSizePools.length ∧
        (pool.trimSizePool k).2 = (pool.retainPages (pool.pagesOf k)).2.modifyPages k
          fun _ => (pool.retainPages (pool.pagesOf k)).1 := by
  unfold trimSizePool
  cases hk : pool.orderedSizePools[k]? with
  | none => exact .inl rfl
  | some sizePool =>
    have hlt : k < pool.orderedSizePools.length := by
      by_contra hge
      rw [List.getElem?_eq_none (Nat.le_of_not_lt hge)] at hk
      cases hk
    have hpages : pool.pagesOf k = sizePool.pages := by simp [pagesOf, hk]
    dsimp only
    split_ifs
    · exact .inl rfl
    · exact .inr ⟨hlt, by rw [hpages]⟩

/-- A page that is not full serves a request. -/
theorem exists_tryReserve (kind : BufferKind) {page : Page} (hpage : pool.heap id = some page)
    (hfull : page.reservedBitmask ≠ fullMask) : ∃ r, pool.tryReserve id kind = some r := by
  cases hc : consume page.reservedBitmask with
  | none => exact absurd (consume_eq_none_iff.1 hc) hfull
  | some r =>
    obtain ⟨index, pageStatus, bitmask⟩ := r
    cases pageStatus <;> simp [tryReserve, hpage, hc]

/-- The buffer `try_reserve` hands out has the buffer size of its page's size pool. -/
theorem ptrSize_tryReserve {bufferPtr : PagedBufferPtr} {page : Page} (hpage : pool.heap id = some page)
    (h : pool.tryReserve id kind = some (bufferPtr, pool')) :
    pool'.ptrSize bufferPtr = pool.bufferSize page.sizePool := by
  obtain ⟨page', index, hpage', -, -, rfl, hheap, -, -, -, hbuf, -⟩ := tryReserve_spec h
  rw [hpage] at hpage'
  cases hpage'
  simp [ptrSize, hheap, hbuf]

end PagedPoolInner

end MountpointS3.Memory
