import MountpointS3.Foundations.Count
import MountpointS3.Memory.Pages

/-!
# The bookkeeping of the paged pool over every run

A run of the pool is a sequence of calls from its users: `get_buffer` of any size and kind,
the drop of a buffer handed out and not dropped yet, and `trim`. `PoolState` keeps, beside
the pool, the buffers that are outstanding, and `Consistent` says what the pool's counters
and masks are with respect to them:

* the empty-page counter of each size pool is the number of its pages with no bit set, its
  reserved-buffer counter of each kind the number of outstanding primary buffers of that
  kind on its pages, and the pool's reserved bytes of each kind the sum of the buffer sizes
  (primary) and sizes (secondary) of the outstanding buffers of that kind;
* the mask of a listed page has exactly the bits of the outstanding buffers on it, so that no
  two outstanding buffers share a slot, and every outstanding buffer lies on a listed page;
* a page no size pool lists any more is full, so that it hands out no buffer.

Each call keeps `Consistent` and never panics (`Consistent.step_cases`); a page leaves its
size pool only by `trim`, only while it holds no outstanding buffer
(`Consistent.unlisted_step`), and never returns (`Removed.of_step`).
-/

namespace MountpointS3.Memory

open Foundations

/-- The pool, and the buffers it has handed out that are not dropped yet. -/
structure PoolState where
  inner : PagedPoolInner
  buffers : List PoolBufferInner

/-- A call on the pool. -/
inductive PoolEvent
  /-- `PagedPool::get_buffer`. -/
  | getBuffer (size : ℕ) (kind : BufferKind)
  /-- The drop of a `PoolBuffer`. -/
  | drop (buffer : PoolBufferInner)
  /-- `PagedPool::trim`. -/
  | trim

namespace PoolState

/-- The pool `new_with_candidate_sizes` builds, with no buffer handed out. -/
def new (sizes : PagedPool) : PoolState := ⟨.new sizes, []⟩

/-- One call; `none` once a call has panicked. -/
def step : Option PoolState → PoolEvent → Option PoolState
  | none, _ => none
  | some s, .getBuffer size kind =>
    (s.inner.getBuffer size kind).map fun r => ⟨r.2, s.buffers ++ [r.1]⟩
  | some s, .drop buffer => (s.inner.drop buffer).map fun inner => ⟨inner, s.buffers.erase buffer⟩
  | some s, .trim => some ⟨s.inner.trim.2, s.buffers⟩

/-- A buffer is dropped only while it is outstanding: a `PoolBuffer` is dropped once. -/
def Outstanding (o : Option PoolState) : PoolEvent → Prop
  | .drop buffer => ∀ s, o = some s → buffer ∈ s.buffers
  | _ => True

/-- The slots of the outstanding primary buffers. -/
def slots (s : PoolState) : List (ℕ × ℕ) := s.buffers.filterMap PoolBufferInner.slot

/-- The counters and masks of the pool agree with its outstanding buffers. -/
structure Consistent (s : PoolState) : Prop where
  /-- a size pool lists each of its pages once -/
  nodup : ∀ k, (s.inner.pagesOf k).Nodup
  /-- a listed page is allocated, and belongs to the size pool that lists it -/
  mem_pagesOf : ∀ k, ∀ id ∈ s.inner.pagesOf k, ∃ page, s.inner.heap id = some page ∧ page.sizePool = k
  bufferSize_pos : ∀ k < s.inner.orderedSizePools.length, 0 < s.inner.bufferSize k
  /-- `empty_pages` counts the pages of the size pool with no buffer reserved -/
  emptyPages : ∀ k, (s.inner.statsOf k).emptyPages = (s.inner.pagesOf k).countP s.inner.isEmptyPage
  /-- `reserved_buffers` counts the outstanding primary buffers of a kind on the size pool -/
  reservedBuffers : ∀ k kind, (s.inner.statsOf k).reservedBuffers kind =
    s.buffers.countP fun b => decide (b.kind = kind ∧ s.inner.sizePoolOf b = some k)
  /-- `reserved_bytes` sums the bytes of the outstanding buffers of a kind -/
  reservedBytes : ∀ kind, s.inner.stats.reservedBytes kind =
    ((s.buffers.filter fun b => decide (b.kind = kind)).map s.inner.reservedSize).sum
  /-- no two outstanding buffers share a slot -/
  slots_nodup : s.slots.Nodup
  /-- the mask of a listed page has exactly the bits of the outstanding buffers on it -/
  bitmask : ∀ id page, s.inner.heap id = some page → s.inner.Listed id →
    ∀ j, page.reservedBitmask.getLsbD j = true ↔ (id, j) ∈ s.slots
  /-- an outstanding buffer lies on a listed page, at one of its sixteen indices -/
  slot_listed : ∀ id j, (id, j) ∈ s.slots → s.inner.Listed id ∧ j < 16
  /-- a page no size pool lists is full -/
  removed_full : ∀ id page, s.inner.heap id = some page → ¬s.inner.Listed id →
    page.reservedBitmask = fullMask
  /-- no page is numbered from `nextPage` on -/
  fresh : ∀ id, s.inner.nextPage ≤ id → s.inner.heap id = none

/-- A page that was allocated and that no size pool lists any more. -/
def Removed (s : PoolState) (id : ℕ) : Prop := (∃ page, s.inner.heap id = some page) ∧ ¬s.inner.Listed id

/-! ### What the counters read -/

section Frame

variable {pool pool' : PagedPoolInner}

theorem sizePoolOf_congr {b : PoolBufferInner}
    (h : ∀ bufferPtr size, b = .primary bufferPtr size →
      (pool'.heap bufferPtr.page).map (·.sizePool) = (pool.heap bufferPtr.page).map (·.sizePool)) :
    pool'.sizePoolOf b = pool.sizePoolOf b := by
  cases b with
  | primary bufferPtr size => exact h bufferPtr size rfl
  | secondary _ => rfl

theorem reservedSize_congr {b : PoolBufferInner}
    (h : ∀ bufferPtr size, b = .primary bufferPtr size →
      (pool'.heap bufferPtr.page).map (·.sizePool) = (pool.heap bufferPtr.page).map (·.sizePool))
    (hsize : ∀ k, pool'.bufferSize k = pool.bufferSize k) :
    pool'.reservedSize b = pool.reservedSize b := by
  cases b with
  | primary bufferPtr size =>
    have hpage := h bufferPtr size rfl
    simp only [PagedPoolInner.reservedSize, PagedPoolInner.ptrSize]
    cases h₁ : pool'.heap bufferPtr.page <;> cases h₂ : pool.heap bufferPtr.page <;> simp_all
  | secondary _ => rfl

/-- The counters' formulas read, of the pool, only the size pools of the pages the buffers lie on
and the buffer sizes. -/
theorem counts_congr (buffers : List PoolBufferInner)
    (h : ∀ b ∈ buffers, ∀ bufferPtr size, b = .primary bufferPtr size →
      (pool'.heap bufferPtr.page).map (·.sizePool) = (pool.heap bufferPtr.page).map (·.sizePool))
    (hsize : ∀ k, pool'.bufferSize k = pool.bufferSize k) :
    (∀ k kind, buffers.countP (fun b => decide (b.kind = kind ∧ pool'.sizePoolOf b = some k)) =
      buffers.countP fun b => decide (b.kind = kind ∧ pool.sizePoolOf b = some k)) ∧
    ∀ kind, ((buffers.filter fun b => decide (b.kind = kind)).map pool'.reservedSize).sum =
      ((buffers.filter fun b => decide (b.kind = kind)).map pool.reservedSize).sum := by
  refine ⟨fun k kind => List.countP_congr fun b hb => ?_, fun kind => ?_⟩
  · rw [sizePoolOf_congr (h b hb)]
  · exact congrArg List.sum (List.map_congr_left fun b hb =>
      reservedSize_congr (h b (List.mem_of_mem_filter hb)) hsize)

/-- Changing the mask of an allocated page leaves every page's size pool. -/
theorem map_sizePool_update {heap : ℕ → Option Page} {id : ℕ} {page : Page} (hpage : heap id = some page)
    (bitmask : BitVec 16) (x : ℕ) :
    (Function.update heap id (some { page with reservedBitmask := bitmask }) x).map (·.sizePool) =
      (heap x).map (·.sizePool) := by
  by_cases hx : x = id
  · subst hx
    simp [hpage]
  · simp [hx]

/-- Changing the mask of one page changes the count of empty pages by the change at that page. -/
theorem countP_isEmptyPage_update {ids : List ℕ} {id : ℕ} (hnodup : ids.Nodup)
    (hheap : ∀ x, x ≠ id → pool'.heap x = pool.heap x) :
    ids.countP pool'.isEmptyPage + (if id ∈ ids ∧ pool.isEmptyPage id then 1 else 0) =
      ids.countP pool.isEmptyPage + (if id ∈ ids ∧ pool'.isEmptyPage id then 1 else 0) := by
  by_cases hid : id ∈ ids
  · simpa [hid] using countP_add_eq_of_eq_off hnodup hid fun x _ hx =>
      PagedPoolInner.isEmptyPage_congr (hheap x hx)
  · simp only [hid, false_and, if_false]
    exact congrArg (· + 0) (List.countP_congr fun x hx => by
      rw [PagedPoolInner.isEmptyPage_congr (hheap x fun hxid => hid (hxid ▸ hx))])

end Frame

variable {s : PoolState}

theorem Consistent.lt_nextPage (hs : s.Consistent) {id : ℕ} {page : Page} (h : s.inner.heap id = some page) :
    id < s.inner.nextPage := by
  by_contra hge
  rw [hs.fresh id (Nat.le_of_not_lt hge)] at h
  cases h

/-- A page is listed by its own size pool only. -/
theorem Consistent.not_mem_pagesOf (hs : s.Consistent) {id k : ℕ} {page : Page}
    (hpage : s.inner.heap id = some page) (hk : k ≠ page.sizePool) : id ∉ s.inner.pagesOf k := by
  intro hmem
  obtain ⟨page', hpage', hsize⟩ := hs.mem_pagesOf k id hmem
  rw [hpage] at hpage'
  cases hpage'
  exact hk hsize.symm

/-- The page of an outstanding buffer is allocated, in a size pool of the pool. -/
theorem Consistent.page_of_slot (hs : s.Consistent) {id j : ℕ} (h : (id, j) ∈ s.slots) :
    ∃ page, s.inner.heap id = some page ∧ id ∈ s.inner.pagesOf page.sizePool ∧
      page.sizePool < s.inner.orderedSizePools.length ∧ j < 16 := by
  obtain ⟨⟨k, hk⟩, hj⟩ := hs.slot_listed id j h
  obtain ⟨page, hpage, rfl⟩ := hs.mem_pagesOf k id hk
  exact ⟨page, hpage, hk, PagedPoolInner.lt_length_of_mem_pagesOf _ hk, hj⟩

theorem mem_slots {bufferPtr : PagedBufferPtr} {size : ℕ}
    (hb : .primary bufferPtr size ∈ s.buffers) : (bufferPtr.page, bufferPtr.index) ∈ s.slots :=
  List.mem_filterMap.2 ⟨_, hb, rfl⟩

/-! ### How the pages change -/

/-- What a call other than `trim` does to the pages: every listed page stays listed, a page
becomes listed only when it is new, and no page is freed. -/
structure Grows (pool pool' : PagedPoolInner) : Prop where
  listed : ∀ x, pool.Listed x → pool'.Listed x
  listed_new : ∀ x, pool'.Listed x → pool.Listed x ∨ pool.heap x = none
  allocated : ∀ x page, pool.heap x = some page → ∃ page', pool'.heap x = some page'

theorem Grows.of_pagesOf {pool pool' : PagedPoolInner} (hpages : ∀ j, pool'.pagesOf j = pool.pagesOf j)
    (hheap : ∀ x page, pool.heap x = some page → ∃ page', pool'.heap x = some page') : Grows pool pool' where
  listed x := by simp only [PagedPoolInner.Listed, hpages, imp_self]
  listed_new x h := .inl (by simpa only [PagedPoolInner.Listed, hpages] using h)
  allocated := hheap

theorem Grows.trans {pool₁ pool₂ pool₃ : PagedPoolInner} (h₁ : Grows pool₁ pool₂) (h₂ : Grows pool₂ pool₃) :
    Grows pool₁ pool₃ where
  listed x h := h₂.listed x (h₁.listed x h)
  listed_new x h := by
    rcases h₂.listed_new x h with hl | hnone
    · exact h₁.listed_new x hl
    · -- a page free after the first call was free before it
      refine .inr ?_
      by_contra hsome
      obtain ⟨page, hpage⟩ := Option.ne_none_iff_exists'.1 hsome
      obtain ⟨page', hpage'⟩ := h₁.allocated x page hpage
      rw [hpage'] at hnone
      cases hnone
  allocated x page h := by
    obtain ⟨page', h'⟩ := h₁.allocated x page h
    exact h₂.allocated x page' h'

theorem grows_of_tryReserve {pool pool' : PagedPoolInner} {id : ℕ} {kind : BufferKind}
    {bufferPtr : PagedBufferPtr} (h : pool.tryReserve id kind = some (bufferPtr, pool')) : Grows pool pool' := by
  obtain ⟨page, index, hpage, -, -, -, hheap, -, -, hpages, -⟩ := PagedPoolInner.tryReserve_spec h
  refine Grows.of_pagesOf hpages fun x p hp => ?_
  by_cases hx : x = id
  · exact ⟨_, by rw [hheap, hx, Function.update_self]⟩
  · exact ⟨p, by rw [hheap, Function.update_of_ne hx, hp]⟩

/-! ### Each call keeps the bookkeeping -/

/-- Reserving a free slot of a listed page, and handing out its buffer, keeps the bookkeeping. -/
theorem Consistent.reserveSlot (hs : s.Consistent) {k id : ℕ} (hid : id ∈ s.inner.pagesOf k)
    {kind : BufferKind} {bufferPtr : PagedBufferPtr} {pool' : PagedPoolInner}
    (h : s.inner.tryReserve id kind = some (bufferPtr, pool')) (size : ℕ) :
    Consistent ⟨pool', s.buffers ++ [.primary bufferPtr size]⟩ := by
  obtain ⟨page, index, hpage, hlt, hfree, rfl, hheap, hstats, hbytes, hpages, hbuf, hlen, hnext⟩ :=
    PagedPoolInner.tryReserve_spec h
  obtain ⟨page', hpage', rfl⟩ := hs.mem_pagesOf k id hid
  rw [hpage] at hpage'
  cases hpage'
  replace hstats := hstats (PagedPoolInner.lt_length_of_mem_pagesOf _ hid)
  have hsizes : ∀ x, (pool'.heap x).map (·.sizePool) = (s.inner.heap x).map (·.sizePool) := by
    rw [hheap]
    exact map_sizePool_update hpage _
  obtain ⟨hcount, hsum⟩ :=
    counts_congr s.buffers (fun _ _ bufferPtr _ _ => hsizes bufferPtr.page) hbuf
  have hother : ∀ x, x ≠ id → pool'.heap x = s.inner.heap x := fun x hx => by
    rw [hheap, Function.update_of_ne hx]
  have hbit : (page.reservedBitmask ||| BitVec.twoPow 16 index).getLsbD index = true := by
    simp [getLsbD_set_bit _ _ hlt]
  -- the slot was free: no outstanding buffer held it
  have hnew : (id, index) ∉ s.slots := fun hmem => by
    have hset := (hs.bitmask id page hpage ⟨_, hid⟩ index).2 hmem
    rw [hfree] at hset
    cases hset
  have hslots : slots ⟨pool', s.buffers ++ [.primary ⟨id, index, kind⟩ size]⟩ = s.slots ++ [(id, index)] := by
    simp [slots, PoolBufferInner.slot]
  have hlisted : ∀ x, pool'.Listed x ↔ s.inner.Listed x := fun x => by
    simp only [PagedPoolInner.Listed, hpages]
  constructor
  case nodup =>
    intro j
    rw [hpages]
    exact hs.nodup j
  case mem_pagesOf =>
    intro j x hx
    rw [hpages] at hx
    obtain ⟨p, hp, hpk⟩ := hs.mem_pagesOf j x hx
    by_cases hxid : x = id
    · subst hxid
      rw [hpage] at hp
      cases hp
      exact ⟨{ page with reservedBitmask := page.reservedBitmask ||| BitVec.twoPow 16 index },
        by rw [hheap, Function.update_self], hpk⟩
    · exact ⟨p, by rw [hother x hxid, hp], hpk⟩
  case bufferSize_pos =>
    intro j hj
    rw [hbuf]
    exact hs.bufferSize_pos j (hlen ▸ hj)
  case emptyPages =>
    intro j
    have hupd := countP_isEmptyPage_update (hs.nodup j) hother
    have hempty' : pool'.isEmptyPage id = false := by
      have hne : page.reservedBitmask ||| BitVec.twoPow 16 index ≠ 0 := fun hzero => by
        rw [hzero] at hbit
        simp at hbit
      simpa [PagedPoolInner.isEmptyPage, hheap] using hne
    dsimp only
    rw [hstats j, hpages]
    by_cases hj : j = page.sizePool
    · -- the page is in this size pool: it stops being empty if it was
      subst hj
      have hcount := hs.emptyPages page.sizePool
      rw [if_pos rfl, SizePoolStats.addReservedBuffer_emptyPages]
      by_cases hz : page.reservedBitmask = 0
      · have hempty : s.inner.isEmptyPage id = true := by simp [PagedPoolInner.isEmptyPage, hpage, hz]
        simp only [hid, true_and, hempty', hempty, if_true, Bool.false_eq_true, if_false] at hupd
        rw [if_pos hz, SizePoolStats.removeEmptyPage_emptyPages]
        omega
      · have hempty : s.inner.isEmptyPage id = false := by
          simpa [PagedPoolInner.isEmptyPage, hpage] using hz
        simp only [hid, true_and, hempty', hempty, Bool.false_eq_true, if_false] at hupd
        rw [if_neg hz]
        omega
    · have hnot := hs.not_mem_pagesOf hpage hj
      simp only [hnot, false_and, if_false, Nat.add_zero] at hupd
      rw [if_neg hj, hupd]
      exact hs.emptyPages j
  case reservedBuffers =>
    intro j kind'
    have hrb : (pool'.statsOf j).reservedBuffers kind' =
        (s.inner.statsOf j).reservedBuffers kind' + if kind = kind' ∧ page.sizePool = j then 1 else 0 := by
      rw [hstats j]
      by_cases hj : page.sizePool = j
      · subst hj
        have hrb₀ : (if page.reservedBitmask = 0 then (s.inner.statsOf page.sizePool).removeEmptyPage
            else s.inner.statsOf page.sizePool).reservedBuffers =
              (s.inner.statsOf page.sizePool).reservedBuffers := by
          split_ifs <;> rfl
        rw [if_pos rfl, SizePoolStats.addReservedBuffer_reservedBuffers, hrb₀, Function.update_apply]
        by_cases hk : kind = kind'
        · subst hk
          simp
        · simp [hk, Ne.symm hk]
      · rw [if_neg (Ne.symm hj)]
        simp [hj]
    -- the new buffer counts in the size pool of its page, under its kind
    have hpool : pool'.sizePoolOf (.primary ⟨id, index, kind⟩ size) = some page.sizePool := by
      simp [PagedPoolInner.sizePoolOf, hheap]
    dsimp only
    rw [hrb, List.countP_append, hcount j kind', ← hs.reservedBuffers j kind']
    simp [hpool, PoolBufferInner.kind]
  case reservedBytes =>
    intro kind'
    have hsize : pool'.reservedSize (.primary ⟨id, index, kind⟩ size) = s.inner.bufferSize page.sizePool := by
      simp [PagedPoolInner.reservedSize, PagedPoolInner.ptrSize, hheap, hbuf]
    dsimp only
    rw [hbytes, List.filter_append, List.map_append, List.sum_append, hsum kind', ← hs.reservedBytes kind']
    by_cases hk : kind = kind'
    · subst hk
      simp [hsize, PoolStats.reserveBytes, PoolBufferInner.kind]
    · simp [hk, Ne.symm hk, PoolStats.reserveBytes, PoolBufferInner.kind]
  case slots_nodup =>
    rw [hslots, List.nodup_append]
    exact ⟨hs.slots_nodup, List.nodup_singleton _, fun a ha b hb => by
      rw [List.mem_singleton] at hb
      subst hb
      exact fun hab => hnew (hab ▸ ha)⟩
  case bitmask =>
    intro x p hp hlx j
    rw [hlisted] at hlx
    rw [hslots, List.mem_append, List.mem_singleton]
    by_cases hxid : x = id
    · subst hxid
      rw [hheap, Function.update_self] at hp
      cases hp
      rw [getLsbD_set_bit _ _ hlt, Bool.or_eq_true, hs.bitmask x page hpage hlx j]
      simp [eq_comm]
    · rw [hother x hxid] at hp
      rw [hs.bitmask x p hp hlx j]
      simp [hxid]
  case slot_listed =>
    intro x j hx
    rw [hslots, List.mem_append, List.mem_singleton] at hx
    rcases hx with hx | hx
    · exact ⟨(hlisted x).2 (hs.slot_listed x j hx).1, (hs.slot_listed x j hx).2⟩
    · cases hx
      exact ⟨(hlisted _).2 ⟨_, hid⟩, hlt⟩
  case removed_full =>
    intro x p hp hlx
    rw [hlisted] at hlx
    have hxid : x ≠ id := fun hx => hlx (hx ▸ ⟨_, hid⟩)
    rw [hother x hxid] at hp
    exact hs.removed_full x p hp hlx
  case fresh =>
    intro x hx
    have hxid : x ≠ id := fun hx' => by
      have := hs.lt_nextPage hpage
      simp only at hx
      omega
    rw [hother x hxid]
    exact hs.fresh x (hnext ▸ hx)

theorem Consistent.nextPage_not_mem (hs : s.Consistent) (k : ℕ) : s.inner.nextPage ∉ s.inner.pagesOf k := by
  intro hmem
  obtain ⟨page, hpage, -⟩ := hs.mem_pagesOf k _ hmem
  rw [hs.fresh _ le_rfl] at hpage
  cases hpage

theorem Consistent.ne_nextPage_of_slot (hs : s.Consistent) {id j : ℕ} (h : (id, j) ∈ s.slots) :
    id ≠ s.inner.nextPage := by
  obtain ⟨page, hpage, -⟩ := hs.page_of_slot h
  exact Nat.ne_of_lt (hs.lt_nextPage hpage)

/-- Allocating a page for size pool `k` and adding it to the size pool's pages keeps the
bookkeeping. -/
theorem Consistent.addPage (hs : s.Consistent) {k : ℕ} (hk : k < s.inner.orderedSizePools.length) :
    ∃ pool₁, s.inner.newPage k = some (s.inner.nextPage, pool₁) ∧
      s.inner.nextPage ∈ (pool₁.modifyPages k (· ++ [s.inner.nextPage])).pagesOf k ∧
      Consistent ⟨pool₁.modifyPages k (· ++ [s.inner.nextPage]), s.buffers⟩ ∧
      Grows s.inner (pool₁.modifyPages k (· ++ [s.inner.nextPage])) ∧
      ∀ j, (pool₁.modifyPages k (· ++ [s.inner.nextPage])).bufferSize j = s.inner.bufferSize j := by
  obtain ⟨pool₁, hnew, hheap, hstats, hpoolStats, hpages, hbuf, hlen, hnext⟩ :=
    PagedPoolInner.newPage_spec (hs.bufferSize_pos k hk)
  refine ⟨pool₁, hnew, ?_⟩
  set n := s.inner.nextPage
  set pool₂ := pool₁.modifyPages k (· ++ [n])
  have hk₁ : k < pool₁.orderedSizePools.length := hlen ▸ hk
  have hpages₂ : ∀ j, pool₂.pagesOf j = if j = k then s.inner.pagesOf k ++ [n] else s.inner.pagesOf j :=
    fun j => by
      rw [PagedPoolInner.pagesOf_modifyPages _ _ hk₁, hpages, hpages]
  have hheap₂ : ∀ x, x ≠ n → pool₂.heap x = s.inner.heap x := fun x hx => by
    simp [pool₂, hheap, hx]
  have hnew₂ : pool₂.heap n = some ⟨0, k⟩ := by simp [pool₂, hheap]
  have hne_n : ∀ j, ∀ x ∈ s.inner.pagesOf j, x ≠ n := fun j x hx hxn => by
    subst hxn
    exact hs.nextPage_not_mem j hx
  have hlisted : ∀ x, pool₂.Listed x ↔ s.inner.Listed x ∨ x = n := fun x => by
    simp only [PagedPoolInner.Listed, hpages₂]
    constructor
    · rintro ⟨j, hj⟩
      split_ifs at hj with hjk
      · rcases List.mem_append.1 hj with hx | hx
        · exact .inl ⟨k, hx⟩
        · exact .inr (List.mem_singleton.1 hx)
      · exact .inl ⟨j, hj⟩
    · rintro (⟨j, hj⟩ | rfl)
      · by_cases hjk : j = k
        · subst hjk
          exact ⟨j, by simp [hj]⟩
        · exact ⟨j, by simp [hjk, hj]⟩
      · exact ⟨k, by simp⟩
  -- the outstanding buffers lie on pages allocated before
  have hframe : ∀ b ∈ s.buffers, ∀ bufferPtr size, b = .primary bufferPtr size →
      (pool₂.heap bufferPtr.page).map (·.sizePool) = (s.inner.heap bufferPtr.page).map (·.sizePool) := by
    rintro b hb bufferPtr size rfl
    rw [hheap₂ _ (hs.ne_nextPage_of_slot (mem_slots hb))]
  have hbuf₂ : ∀ j, pool₂.bufferSize j = s.inner.bufferSize j := fun j => by
    rw [PagedPoolInner.bufferSize_modifyPages, hbuf]
  obtain ⟨hcount, hsum⟩ := counts_congr _ hframe hbuf₂
  -- the only page newly listed is the new one, which was not allocated
  have hgrows : Grows s.inner pool₂ :=
    { listed := fun x hx => (hlisted x).2 (.inl hx)
      listed_new := fun x hx => ((hlisted x).1 hx).imp_right fun (hxn : x = n) => by
        rw [hxn]
        exact hs.fresh n le_rfl
      allocated := fun x page hp => ⟨page, by rw [hheap₂ x (Nat.ne_of_lt (hs.lt_nextPage hp)), hp]⟩ }
  refine ⟨by simp [hpages₂], ?_, hgrows, hbuf₂⟩
  constructor
  case nodup =>
    intro j
    dsimp only
    rw [hpages₂]
    split_ifs with hjk
    · subst hjk
      exact (hs.nodup j).append (List.nodup_singleton n) fun x hx hxn =>
        hne_n j x hx (List.mem_singleton.1 hxn)
    · exact hs.nodup j
  case mem_pagesOf =>
    intro j x hx
    dsimp only at hx ⊢
    rw [hpages₂] at hx
    split_ifs at hx with hjk
    · subst hjk
      rcases List.mem_append.1 hx with hx | hx
      · obtain ⟨page, hpage, hsize⟩ := hs.mem_pagesOf j x hx
        exact ⟨page, by rw [hheap₂ x (hne_n j x hx), hpage], hsize⟩
      · rw [List.mem_singleton.1 hx]
        exact ⟨_, hnew₂, rfl⟩
    · obtain ⟨page, hpage, hsize⟩ := hs.mem_pagesOf j x hx
      exact ⟨page, by rw [hheap₂ x (hne_n j x hx), hpage], hsize⟩
  case bufferSize_pos =>
    intro j hj
    dsimp only at hj ⊢
    rw [PagedPoolInner.bufferSize_modifyPages, hbuf]
    exact hs.bufferSize_pos j (by simpa [pool₂, hlen] using hj)
  case emptyPages =>
    intro j
    have hagree : ∀ x ∈ s.inner.pagesOf j, pool₂.isEmptyPage x = s.inner.isEmptyPage x := fun x hx =>
      PagedPoolInner.isEmptyPage_congr (hheap₂ x (hne_n j x hx))
    have hold : (s.inner.pagesOf j).countP pool₂.isEmptyPage = (s.inner.pagesOf j).countP s.inner.isEmptyPage :=
      List.countP_congr fun x hx => by rw [hagree x hx]
    dsimp only
    rw [PagedPoolInner.statsOf_modifyPages, hstats, hpages₂]
    by_cases hjk : j = k
    · -- the new page is empty, and counted as such
      subst hjk
      have hemptyNew : pool₂.isEmptyPage n = true := by simp [PagedPoolInner.isEmptyPage, hnew₂]
      rw [if_pos rfl, if_pos rfl, SizePoolStats.addEmptyPage_emptyPages, List.countP_append, hold,
        hs.emptyPages j, List.countP_singleton, if_pos hemptyNew]
    · rw [if_neg hjk, if_neg hjk, hold, hs.emptyPages j]
  case reservedBuffers =>
    intro j kind
    dsimp only
    rw [PagedPoolInner.statsOf_modifyPages, hstats, hcount j kind, ← hs.reservedBuffers j kind]
    split_ifs with hjk
    · subst hjk
      rfl
    · rfl
  case reservedBytes =>
    intro kind
    dsimp only
    rw [PagedPoolInner.stats_modifyPages, hpoolStats, hsum kind]
    exact hs.reservedBytes kind
  case slots_nodup => exact hs.slots_nodup
  case bitmask =>
    intro x page hp hlx j
    dsimp only at hp hlx ⊢
    by_cases hxn : x = n
    · -- the new page has no bit set, and no buffer lies on it
      subst hxn
      rw [hnew₂] at hp
      cases hp
      have hzero : (0 : BitVec 16).getLsbD j = false := by simp
      rw [hzero, Bool.false_eq_true, false_iff]
      exact fun hmem => hs.ne_nextPage_of_slot hmem rfl
    · rw [hheap₂ x hxn] at hp
      exact hs.bitmask x page hp (((hlisted x).1 hlx).resolve_right hxn) j
  case slot_listed =>
    intro x j hx
    exact ⟨(hlisted x).2 (.inl (hs.slot_listed x j hx).1), (hs.slot_listed x j hx).2⟩
  case removed_full =>
    intro x page hp hlx
    dsimp only at hp hlx
    have hxn : x ≠ n := fun hxn => hlx ((hlisted x).2 (.inr hxn))
    rw [hheap₂ x hxn] at hp
    exact hs.removed_full x page hp fun hl => hlx ((hlisted x).2 (.inl hl))
  case fresh =>
    intro x hx
    dsimp only at hx ⊢
    rw [PagedPoolInner.nextPage_modifyPages, hnext] at hx
    rw [hheap₂ x (by omega)]
    exact hs.fresh x (by omega)

/-- Handing out a secondary buffer, whose bytes are counted at once, keeps the bookkeeping. -/
theorem Consistent.secondary (hs : s.Consistent) (size : ℕ) (kind : BufferKind) :
    Consistent ⟨{ s.inner with stats := s.inner.stats.reserveBytes size kind },
      s.buffers ++ [.secondary ⟨size, kind⟩]⟩ := by
  have hslots : slots ⟨{ s.inner with stats := s.inner.stats.reserveBytes size kind },
      s.buffers ++ [.secondary ⟨size, kind⟩]⟩ = s.slots := by
    simp [slots, PoolBufferInner.slot]
  constructor
  case nodup => exact hs.nodup
  case mem_pagesOf => exact hs.mem_pagesOf
  case bufferSize_pos => exact hs.bufferSize_pos
  case emptyPages => exact hs.emptyPages
  case reservedBuffers =>
    intro k kind'
    -- a secondary buffer lies in no size pool
    change (s.inner.statsOf k).reservedBuffers kind' = List.countP
      (fun b : PoolBufferInner => decide (b.kind = kind' ∧ s.inner.sizePoolOf b = some k))
      (s.buffers ++ [PoolBufferInner.secondary ⟨size, kind⟩])
    rw [List.countP_append, ← hs.reservedBuffers k kind']
    simp [PagedPoolInner.sizePoolOf]
  case reservedBytes =>
    intro kind'
    change Function.update s.inner.stats.reservedBytes kind (s.inner.stats.reservedBytes kind + size) kind' =
      (((s.buffers ++ [PoolBufferInner.secondary ⟨size, kind⟩]).filter
        fun b : PoolBufferInner => decide (b.kind = kind')).map s.inner.reservedSize).sum
    rw [List.filter_append, List.map_append, List.sum_append, ← hs.reservedBytes kind', Function.update_apply]
    by_cases hk : kind' = kind
    · subst hk
      simp [PoolBufferInner.kind, PagedPoolInner.reservedSize]
    · simp [PoolBufferInner.kind, hk, Ne.symm hk]
  case slots_nodup => exact hslots ▸ hs.slots_nodup
  case bitmask => exact hslots ▸ hs.bitmask
  case slot_listed => exact hslots ▸ hs.slot_listed
  case removed_full => exact hs.removed_full
  case fresh => exact hs.fresh

/-- The slots left once a primary buffer is dropped are the others. -/
theorem Consistent.mem_slots_erase (hs : s.Consistent) {bufferPtr : PagedBufferPtr} {size : ℕ}
    (hb : .primary bufferPtr size ∈ s.buffers) {x j : ℕ} :
    (x, j) ∈ (s.buffers.erase (.primary bufferPtr size)).filterMap PoolBufferInner.slot ↔
      (x, j) ∈ s.slots ∧ (x, j) ≠ (bufferPtr.page, bufferPtr.index) := by
  have hperm := (List.perm_cons_erase hb).filterMap PoolBufferInner.slot
  simp only [List.filterMap_cons, PoolBufferInner.slot] at hperm
  obtain ⟨hout, -⟩ := List.nodup_cons.1 (hperm.nodup_iff.1 hs.slots_nodup)
  rw [slots, hperm.mem_iff, List.mem_cons]
  constructor
  · intro hx
    exact ⟨.inr hx, fun heq => hout (heq ▸ hx)⟩
  · rintro ⟨hx | hx, hne⟩
    · exact absurd hx hne
    · exact hx

/-- Dropping an outstanding primary buffer releases it to its page and keeps the bookkeeping. -/
theorem Consistent.release (hs : s.Consistent) {bufferPtr : PagedBufferPtr} {size : ℕ}
    (hb : .primary bufferPtr size ∈ s.buffers) :
    ∃ pool', s.inner.release bufferPtr = some pool' ∧
      Consistent ⟨pool', s.buffers.erase (.primary bufferPtr size)⟩ := by
  obtain ⟨page, hpage, hid, hklt, hindex⟩ := hs.page_of_slot (mem_slots hb)
  obtain ⟨pool', hrelease, hheap, hstats, hbytes, hpages, hbuf, hlen, hnext⟩ :=
    PagedPoolInner.release_spec hpage hindex
  refine ⟨pool', hrelease, ?_⟩
  replace hstats := hstats hklt
  set bitmask := page.reservedBitmask &&& ~~~BitVec.twoPow 16 bufferPtr.index
  have hsizes : ∀ x, (pool'.heap x).map (·.sizePool) = (s.inner.heap x).map (·.sizePool) := by
    rw [hheap]
    exact map_sizePool_update hpage _
  obtain ⟨hcount, hsum⟩ := counts_congr (s.buffers.erase (.primary bufferPtr size))
    (fun _ _ bufferPtr _ _ => hsizes bufferPtr.page) hbuf
  have hother : ∀ x, x ≠ bufferPtr.page → pool'.heap x = s.inner.heap x := fun x hx => by
    rw [hheap, Function.update_of_ne hx]
  have hlisted : ∀ x, pool'.Listed x ↔ s.inner.Listed x := fun x => by
    simp only [PagedPoolInner.Listed, hpages]
  -- the buffer's bit was set
  have hset : page.reservedBitmask.getLsbD bufferPtr.index = true :=
    (hs.bitmask _ page hpage ⟨_, hid⟩ _).2 (mem_slots hb)
  constructor
  case nodup =>
    intro j
    rw [hpages]
    exact hs.nodup j
  case mem_pagesOf =>
    intro j x hx
    rw [hpages] at hx
    obtain ⟨p, hp, hpk⟩ := hs.mem_pagesOf j x hx
    by_cases hxid : x = bufferPtr.page
    · subst hxid
      rw [hpage] at hp
      cases hp
      exact ⟨{ page with reservedBitmask := bitmask }, by rw [hheap, Function.update_self], hpk⟩
    · exact ⟨p, by rw [hother x hxid, hp], hpk⟩
  case bufferSize_pos =>
    intro j hj
    rw [hbuf]
    exact hs.bufferSize_pos j (hlen ▸ hj)
  case emptyPages =>
    intro j
    have hupd := countP_isEmptyPage_update (hs.nodup j) hother
    have hempty : s.inner.isEmptyPage bufferPtr.page = false := by
      have hne : page.reservedBitmask ≠ 0 := fun hzero => by
        rw [hzero] at hset
        simp at hset
      simpa [PagedPoolInner.isEmptyPage, hpage] using hne
    dsimp only
    rw [hstats j, hpages]
    by_cases hj : j = page.sizePool
    · -- the page is in this size pool: it becomes empty if that was its last buffer
      subst hj
      have hcount := hs.emptyPages page.sizePool
      rw [if_pos rfl]
      by_cases hz : bitmask = 0
      · have hempty' : pool'.isEmptyPage bufferPtr.page = true := by
          simp [PagedPoolInner.isEmptyPage, hheap, hz]
        simp only [hid, true_and, hempty', hempty, if_true, Bool.false_eq_true, if_false] at hupd
        rw [if_pos hz, SizePoolStats.addEmptyPage_emptyPages, SizePoolStats.removeReservedBuffer_emptyPages]
        omega
      · have hempty' : pool'.isEmptyPage bufferPtr.page = false := by
          simpa [PagedPoolInner.isEmptyPage, hheap] using hz
        simp only [hid, true_and, hempty', hempty, Bool.false_eq_true, if_false] at hupd
        rw [if_neg hz, SizePoolStats.removeReservedBuffer_emptyPages]
        omega
    · have hnot := hs.not_mem_pagesOf hpage hj
      simp only [hnot, false_and, if_false, Nat.add_zero] at hupd
      rw [if_neg hj, hupd]
      exact hs.emptyPages j
  case reservedBuffers =>
    intro j kind
    -- the counter held this buffer, under its kind, in the size pool of its page
    have herase := countP_eq_erase_add hb fun b => decide (b.kind = kind ∧ s.inner.sizePoolOf b = some j)
    have hq : decide ((PoolBufferInner.primary bufferPtr size).kind = kind ∧
        s.inner.sizePoolOf (.primary bufferPtr size) = some j) = decide (bufferPtr.kind = kind ∧ page.sizePool = j) := by
      simp [PoolBufferInner.kind, PagedPoolInner.sizePoolOf, hpage]
    rw [← hs.reservedBuffers j kind] at herase
    simp only [hq, decide_eq_true_eq] at herase
    have hrb : (pool'.statsOf j).reservedBuffers kind = (s.inner.statsOf j).reservedBuffers kind -
        (if bufferPtr.kind = kind ∧ page.sizePool = j then 1 else 0) := by
      rw [hstats j]
      by_cases hj : page.sizePool = j
      · subst hj
        have hrb₀ : (if bitmask = 0 then ((s.inner.statsOf page.sizePool).removeReservedBuffer bufferPtr.kind).addEmptyPage
            else (s.inner.statsOf page.sizePool).removeReservedBuffer bufferPtr.kind).reservedBuffers =
              ((s.inner.statsOf page.sizePool).removeReservedBuffer bufferPtr.kind).reservedBuffers := by
          split_ifs <;> rfl
        rw [if_pos rfl, hrb₀, SizePoolStats.removeReservedBuffer_reservedBuffers, Function.update_apply]
        by_cases hk : bufferPtr.kind = kind
        · subst hk
          simp
        · simp [hk, Ne.symm hk]
      · rw [if_neg (Ne.symm hj)]
        simp [hj]
    dsimp only
    rw [hcount j kind, hrb, herase, Nat.add_sub_cancel]
  case reservedBytes =>
    intro kind
    have hsize : s.inner.reservedSize (.primary bufferPtr size) = s.inner.bufferSize page.sizePool := by
      simp [PagedPoolInner.reservedSize, PagedPoolInner.ptrSize, hpage]
    have herase := sum_map_filter_eq_erase_add hb (fun b => decide (b.kind = kind)) s.inner.reservedSize
    rw [← hs.reservedBytes kind, hsize] at herase
    simp only [show (PoolBufferInner.primary bufferPtr size).kind = bufferPtr.kind from rfl,
      decide_eq_true_eq] at herase
    dsimp only
    rw [hbytes, hsum kind]
    simp only [PoolStats.releaseBytes, Function.update_apply]
    by_cases hk : kind = bufferPtr.kind
    · subst hk
      rw [if_pos rfl, herase, if_pos rfl, Nat.add_sub_cancel]
    · rw [if_neg hk, herase, if_neg (Ne.symm hk), Nat.add_zero]
  case slots_nodup =>
    exact hs.slots_nodup.sublist (List.erase_sublist.filterMap _)
  case bitmask =>
    intro x p hp hlx j
    rw [hlisted] at hlx
    dsimp only [slots]
    rw [hs.mem_slots_erase hb]
    by_cases hxid : x = bufferPtr.page
    · subst hxid
      rw [hheap, Function.update_self] at hp
      cases hp
      rw [getLsbD_clear_bit, Bool.and_eq_true, hs.bitmask _ page hpage ⟨_, hid⟩ j]
      simp only [Bool.not_eq_true', decide_eq_false_iff_not, ne_eq, Prod.mk.injEq, true_and]
      exact and_congr_right fun _ => ⟨fun h heq => h heq.symm, fun h heq => h heq.symm⟩
    · rw [hother x hxid] at hp
      rw [hs.bitmask x p hp hlx j]
      simp [hxid]
  case slot_listed =>
    intro x j hx
    dsimp only [slots] at hx
    rw [hs.mem_slots_erase hb] at hx
    exact ⟨(hlisted x).2 (hs.slot_listed x j hx.1).1, (hs.slot_listed x j hx.1).2⟩
  case removed_full =>
    intro x p hp hlx
    rw [hlisted] at hlx
    have hxid : x ≠ bufferPtr.page := fun hx => hlx (hx ▸ ⟨_, hid⟩)
    rw [hother x hxid] at hp
    exact hs.removed_full x p hp hlx
  case fresh =>
    intro x hx
    have hxid : x ≠ bufferPtr.page := fun hx' => by
      have := hs.lt_nextPage hpage
      simp only at hx
      omega
    rw [hother x hxid]
    exact hs.fresh x (hnext ▸ hx)

/-- Dropping an outstanding secondary buffer gives back its bytes and keeps the bookkeeping. -/
theorem Consistent.dropSecondary (hs : s.Consistent) {buffer : FreeBuffer} (hb : .secondary buffer ∈ s.buffers) :
    Consistent ⟨{ s.inner with stats := s.inner.stats.releaseBytes buffer.size buffer.kind },
      s.buffers.erase (.secondary buffer)⟩ := by
  -- a secondary buffer occupies no slot, and lies in no size pool
  have hperm : s.slots.Perm ((s.buffers.erase (.secondary buffer)).filterMap PoolBufferInner.slot) := by
    simpa [slots, List.filterMap_cons, PoolBufferInner.slot] using
      (List.perm_cons_erase hb).filterMap PoolBufferInner.slot
  have hkind : (PoolBufferInner.secondary buffer).kind = buffer.kind := rfl
  constructor
  case nodup => exact hs.nodup
  case mem_pagesOf => exact hs.mem_pagesOf
  case bufferSize_pos => exact hs.bufferSize_pos
  case emptyPages => exact hs.emptyPages
  case reservedBuffers =>
    intro k kind
    have herase := countP_eq_erase_add hb fun b => decide (b.kind = kind ∧ s.inner.sizePoolOf b = some k)
    have hq : decide ((PoolBufferInner.secondary buffer).kind = kind ∧
        s.inner.sizePoolOf (.secondary buffer) = some k) = false := by
      simp [PagedPoolInner.sizePoolOf]
    rw [← hs.reservedBuffers k kind] at herase
    simp only [hq, Bool.false_eq_true, if_false, Nat.add_zero] at herase
    exact herase
  case reservedBytes =>
    intro kind
    have herase := sum_map_filter_eq_erase_add hb (fun b => decide (b.kind = kind)) s.inner.reservedSize
    rw [← hs.reservedBytes kind] at herase
    simp only [hkind, decide_eq_true_eq] at herase
    change Function.update s.inner.stats.reservedBytes buffer.kind
      (s.inner.stats.reservedBytes buffer.kind - buffer.size) kind = _
    rw [Function.update_apply]
    by_cases hk : kind = buffer.kind
    · subst hk
      rw [if_pos rfl, herase, if_pos rfl]
      exact Nat.add_sub_cancel _ _
    · rw [if_neg hk, herase, if_neg (Ne.symm hk), Nat.add_zero]
      rfl
  case slots_nodup => exact hperm.nodup_iff.1 hs.slots_nodup
  case bitmask =>
    intro x p hp hlx j
    exact (hs.bitmask x p hp hlx j).trans hperm.mem_iff
  case slot_listed =>
    intro x j hx
    exact hs.slot_listed x j (hperm.mem_iff.2 hx)
  case removed_full => exact hs.removed_full
  case fresh => exact hs.fresh

/-! ### Trimming -/

/-- No outstanding buffer lies on a listed page with no bit set. -/
theorem Consistent.not_mem_slots_of_isEmptyPage (hs : s.Consistent) {x : ℕ} (hl : s.inner.Listed x)
    (he : s.inner.isEmptyPage x = true) (j : ℕ) : (x, j) ∉ s.slots := by
  intro hmem
  cases hpage : s.inner.heap x with
  | none => simp [PagedPoolInner.isEmptyPage, hpage] at he
  | some page =>
    have hzero : page.reservedBitmask = 0 := by simpa [PagedPoolInner.isEmptyPage, hpage] using he
    have hbit := (hs.bitmask x page hpage hl j).2 hmem
    simp [hzero] at hbit

/-- What trimming does to a consistent pool: it stays consistent, lists no page it did not list,
stops listing only pages on which no outstanding buffer lies, and frees no page. -/
structure TrimmedTo (s s' : PoolState) : Prop where
  consistent : s'.Consistent
  buffers_eq : s'.buffers = s.buffers
  listed : ∀ x, s'.inner.Listed x → s.inner.Listed x
  unlisted : ∀ x, s.inner.Listed x → ¬s'.inner.Listed x → ∀ j, (x, j) ∉ s.slots
  allocated : ∀ x page, s.inner.heap x = some page → ∃ page', s'.inner.heap x = some page'

theorem TrimmedTo.refl (hs : s.Consistent) : TrimmedTo s s :=
  ⟨hs, rfl, fun _ h => h, fun _ h h' => absurd h h', fun _ page h => ⟨page, h⟩⟩

theorem TrimmedTo.trans {s₁ s₂ : PoolState} (h₁ : TrimmedTo s s₁) (h₂ : TrimmedTo s₁ s₂) : TrimmedTo s s₂ where
  consistent := h₂.consistent
  buffers_eq := h₂.buffers_eq.trans h₁.buffers_eq
  listed x h := h₁.listed x (h₂.listed x h)
  unlisted x hl hl₂ j := by
    by_cases hl₁ : s₁.inner.Listed x
    · have h := h₂.unlisted x hl₁ hl₂ j
      rwa [slots, h₁.buffers_eq] at h
    · exact h₁.unlisted x hl hl₁ j
  allocated x page h := by
    obtain ⟨page₁, h₁'⟩ := h₁.allocated x page h
    exact h₂.allocated x page₁ h₁'

/-- The turn of one size pool in `trim`: its empty pages are marked full and taken out. -/
theorem Consistent.trimSizePool (hs : s.Consistent) (k : ℕ) :
    TrimmedTo s ⟨(s.inner.trimSizePool k).2, s.buffers⟩ := by
  rcases s.inner.trimSizePool_cases k with htrim | ⟨hk, htrim⟩
  · rw [htrim]
    exact TrimmedTo.refl hs
  obtain ⟨hkept, hheap₁, hstats₁, hpool₁, hpages₁, hbuf₁, hlen₁, hnext₁⟩ :=
    s.inner.retainPages_spec (s.inner.pagesOf k) (hs.nodup k) (hs.mem_pagesOf k) hk
  rw [htrim]
  set pool₁ := (s.inner.retainPages (s.inner.pagesOf k)).2
  set kept := (s.inner.retainPages (s.inner.pagesOf k)).1
  set pool₂ := pool₁.modifyPages k fun _ => kept
  -- the pages taken out: the empty ones of size pool `k`
  set Gone : ℕ → Prop := fun x => x ∈ s.inner.pagesOf k ∧ s.inner.isEmptyPage x = true
  have hpages₂ : ∀ j, pool₂.pagesOf j = if j = k then kept else s.inner.pagesOf j := fun j => by
    rw [PagedPoolInner.pagesOf_modifyPages _ _ (by simpa [pool₁] using hlen₁.symm ▸ hk), hpages₁]
  have hheap₂ : ∀ x, ¬Gone x → pool₂.heap x = s.inner.heap x := fun x hx => by
    simp only [pool₂, PagedPoolInner.heap_modifyPages, pool₁, hheap₁ x, Gone] at hx ⊢
    rw [if_neg hx]
  have hsizes : ∀ x, (pool₂.heap x).map (·.sizePool) = (s.inner.heap x).map (·.sizePool) := fun x => by
    simp only [pool₂, PagedPoolInner.heap_modifyPages, pool₁, hheap₁ x]
    split_ifs <;> simp [Option.map_map, Function.comp_def]
  -- a page of another size pool is not one of size pool `k`
  have hother : ∀ j x, j ≠ k → x ∈ s.inner.pagesOf j → x ∉ s.inner.pagesOf k := fun j x hj hx hxk => by
    obtain ⟨page, hpage, rfl⟩ := hs.mem_pagesOf j x hx
    exact hj ((hs.mem_pagesOf k x hxk).elim fun page' ⟨hpage', hk'⟩ => by
      rw [hpage] at hpage'
      cases hpage'
      exact hk')
  have hmem_kept : ∀ x, x ∈ kept ↔ x ∈ s.inner.pagesOf k ∧ ¬Gone x := fun x => by
    rw [hkept, List.mem_filter]
    constructor
    · rintro ⟨hx, hne⟩
      exact ⟨hx, fun hg => by simp [hg.2] at hne⟩
    · rintro ⟨hx, hg⟩
      exact ⟨hx, by simpa using fun he => hg ⟨hx, he⟩⟩
  have hlisted₂ : ∀ x, pool₂.Listed x ↔ s.inner.Listed x ∧ ¬Gone x := fun x => by
    constructor
    · rintro ⟨j, hj⟩
      rw [hpages₂] at hj
      split_ifs at hj with hjk
      · exact ⟨⟨k, ((hmem_kept x).1 hj).1⟩, ((hmem_kept x).1 hj).2⟩
      · exact ⟨⟨j, hj⟩, fun hg => hother j x hjk hj hg.1⟩
    · rintro ⟨⟨j, hj⟩, hg⟩
      by_cases hjk : j = k
      · subst hjk
        exact ⟨j, by rw [hpages₂, if_pos rfl]; exact (hmem_kept x).2 ⟨hj, hg⟩⟩
      · exact ⟨j, by rw [hpages₂, if_neg hjk]; exact hj⟩
  obtain ⟨hcount, hsum⟩ := counts_congr s.buffers
    (fun _ _ bufferPtr _ _ => hsizes bufferPtr.page)
    (fun j => by rw [PagedPoolInner.bufferSize_modifyPages, hbuf₁])
  have hconsistent : Consistent ⟨pool₂, s.buffers⟩ := by
    constructor
    case nodup =>
      intro j
      dsimp only
      rw [hpages₂]
      split_ifs with hjk
      · rw [hkept]
        exact (hs.nodup k).filter _
      · exact hs.nodup j
    case mem_pagesOf =>
      intro j x hx
      dsimp only at hx ⊢
      rw [hpages₂] at hx
      have hxj : x ∈ s.inner.pagesOf j := by
        split_ifs at hx with hjk
        · exact hjk ▸ ((hmem_kept x).1 hx).1
        · exact hx
      obtain ⟨page, hpage, hsize⟩ := hs.mem_pagesOf j x hxj
      have hmap := hsizes x
      rw [hpage] at hmap
      obtain ⟨page', hpage', hsize'⟩ := Option.map_eq_some_iff.1 hmap
      exact ⟨page', hpage', hsize'.trans hsize⟩
    case bufferSize_pos =>
      intro j hj
      dsimp only at hj ⊢
      rw [PagedPoolInner.bufferSize_modifyPages, hbuf₁]
      exact hs.bufferSize_pos j (by simpa [pool₂, pool₁, hlen₁] using hj)
    case emptyPages =>
      intro j
      dsimp only
      rw [PagedPoolInner.statsOf_modifyPages, hstats₁ j, hpages₂]
      by_cases hjk : j = k
      · -- every empty page is gone, and what is kept is not empty
        subst hjk
        rw [if_pos rfl, if_pos rfl, ← hs.emptyPages j, Nat.sub_self, eq_comm, List.countP_eq_zero]
        intro x hx
        obtain ⟨hxj, hg⟩ := (hmem_kept x).1 hx
        rw [PagedPoolInner.isEmptyPage_congr (hheap₂ x hg)]
        exact fun he => hg ⟨hxj, he⟩
      · rw [if_neg hjk, if_neg hjk, hs.emptyPages j]
        exact List.countP_congr fun x hx => by
          rw [PagedPoolInner.isEmptyPage_congr (hheap₂ x fun hg => hother j x hjk hx hg.1)]
    case reservedBuffers =>
      intro j kind
      dsimp only
      rw [PagedPoolInner.statsOf_modifyPages, hstats₁ j, hcount j kind, ← hs.reservedBuffers j kind]
      split_ifs with hjk
      · subst hjk
        rfl
      · rfl
    case reservedBytes =>
      intro kind
      dsimp only
      rw [PagedPoolInner.stats_modifyPages, hpool₁, hsum kind]
      exact hs.reservedBytes kind
    case slots_nodup => exact hs.slots_nodup
    case bitmask =>
      intro x page hp hlx j
      dsimp only at hp hlx ⊢
      obtain ⟨hl, hg⟩ := (hlisted₂ x).1 hlx
      rw [hheap₂ x hg] at hp
      exact hs.bitmask x page hp hl j
    case slot_listed =>
      intro x j hx
      obtain ⟨hl, hj⟩ := hs.slot_listed x j hx
      exact ⟨(hlisted₂ x).2 ⟨hl, fun hg => hs.not_mem_slots_of_isEmptyPage hl hg.2 j hx⟩, hj⟩
    case removed_full =>
      intro x page hp hlx
      dsimp only at hp hlx
      by_cases hg : Gone x
      · -- a page taken out now was marked full first
        have hg' : x ∈ s.inner.pagesOf k ∧ s.inner.isEmptyPage x = true := hg
        simp only [pool₂, PagedPoolInner.heap_modifyPages, pool₁, hheap₁ x, if_pos hg'] at hp
        obtain ⟨page₀, -, rfl⟩ := Option.map_eq_some_iff.1 hp
        rfl
      · rw [hheap₂ x hg] at hp
        exact hs.removed_full x page hp fun hl => hlx ((hlisted₂ x).2 ⟨hl, hg⟩)
    case fresh =>
      intro x hx
      dsimp only at hx ⊢
      have hfree := hs.fresh x (by simpa [pool₂, pool₁, hnext₁] using hx)
      have hg : ¬Gone x := fun hg => by
        obtain ⟨page, hpage, -⟩ := hs.mem_pagesOf k x hg.1
        rw [hfree] at hpage
        cases hpage
      rw [hheap₂ x hg, hfree]
  refine ⟨hconsistent, rfl, fun x hx => ((hlisted₂ x).1 hx).1, fun x hl hl₂ j => ?_, fun x page hp => ?_⟩
  · -- a page taken out was empty, so no outstanding buffer lies on it
    have hg : Gone x := by
      by_contra hg
      exact hl₂ ((hlisted₂ x).2 ⟨hl, hg⟩)
    exact hs.not_mem_slots_of_isEmptyPage hl hg.2 j
  · have hmap := hsizes x
    rw [hp] at hmap
    obtain ⟨page', hpage', -⟩ := Option.map_eq_some_iff.1 hmap
    exact ⟨page', hpage'⟩

/-- `trim` gives each size pool its turn, in order. -/
theorem Consistent.trim (hs : s.Consistent) : TrimmedTo s ⟨s.inner.trim.2, s.buffers⟩ := by
  unfold PagedPoolInner.trim
  generalize List.range s.inner.orderedSizePools.length = ks
  generalize false = removed
  -- induction on the size pools still to visit, from any consistent pool
  induction ks generalizing s removed with
  | nil => exact TrimmedTo.refl hs
  | cons k ks ih =>
    rw [List.foldl_cons]
    have hturn := hs.trimSizePool k
    exact hturn.trans (ih hturn.consistent _)

/-- `reserve` serves every request of a consistent pool, from a page of the size pool, and the
buffer has the size pool's buffer size. -/
theorem Consistent.reserve (hs : s.Consistent) {k : ℕ} (hk : k < s.inner.orderedSizePools.length)
    (kind : BufferKind) (size : ℕ) :
    ∃ bufferPtr pool', s.inner.reserve k kind = some (bufferPtr, pool') ∧
      Consistent ⟨pool', s.buffers ++ [.primary bufferPtr size]⟩ ∧ Grows s.inner pool' ∧
      pool'.ptrSize bufferPtr = s.inner.bufferSize k := by
  unfold PagedPoolInner.reserve
  cases hfast : s.inner.tryGetBufferPtr (s.inner.pagesOf k) kind with
  | some r =>
    -- the fast path finds a page with a free buffer
    obtain ⟨bufferPtr, pool'⟩ := r
    obtain ⟨id, hid, hres⟩ := PagedPoolInner.tryGetBufferPtr_spec hfast
    obtain ⟨page, hpage, rfl⟩ := hs.mem_pagesOf k id hid
    exact ⟨bufferPtr, pool', rfl, hs.reserveSlot hid hres size, grows_of_tryReserve hres,
      PagedPoolInner.ptrSize_tryReserve hpage hres⟩
  | none =>
    -- the slow path adds an empty page and takes its first buffer
    obtain ⟨pool₁, hnew, hmem, hcons₁, hgrows₁, hbuf₁⟩ := hs.addPage hk
    set n := s.inner.nextPage
    obtain ⟨page, hpage, hsize⟩ := hcons₁.mem_pagesOf k n hmem
    -- no outstanding buffer lies on the new page, so none of its bits is set
    have hfree : page.reservedBitmask ≠ fullMask := fun hfull => by
      have hbit := (hcons₁.bitmask n page hpage ⟨k, hmem⟩ 0).1 (by simp [hfull, fullMask])
      exact hs.ne_nextPage_of_slot hbit rfl
    obtain ⟨⟨bufferPtr', pool'⟩, hres⟩ := PagedPoolInner.exists_tryReserve kind hpage hfree
    have hres₁ := hres
    rw [PagedPoolInner.tryReserve_modifyPages] at hres₁
    obtain ⟨⟨bufferPtr, pool₃⟩, hres₃, heq⟩ := Option.map_eq_some_iff.1 hres₁
    simp only [Prod.mk.injEq] at heq
    obtain ⟨rfl, rfl⟩ := heq
    refine ⟨bufferPtr, pool₃.modifyPages k (· ++ [n]), ?_, hcons₁.reserveSlot hmem hres size,
      hgrows₁.trans (grows_of_tryReserve hres), ?_⟩
    · simp [hnew, hres₃]
    · rw [PagedPoolInner.ptrSize_tryReserve hpage hres, hsize, hbuf₁]

theorem grows_of_release {pool pool' : PagedPoolInner} {bufferPtr : PagedBufferPtr}
    (h : pool.release bufferPtr = some pool') : Grows pool pool' := by
  cases hpage : pool.heap bufferPtr.page with
  | none => simp [PagedPoolInner.release, hpage] at h
  | some page =>
    by_cases hindex : bufferPtr.index < 16
    · obtain ⟨pool'', hrelease, hheap, -, -, hpages, -⟩ := PagedPoolInner.release_spec hpage hindex
      rw [hrelease] at h
      cases h
      refine Grows.of_pagesOf hpages fun x p hp => ?_
      by_cases hx : x = bufferPtr.page
      · exact ⟨_, by rw [hheap, hx, Function.update_self]⟩
      · exact ⟨p, by rw [hheap, Function.update_of_ne hx, hp]⟩
    · simp [PagedPoolInner.release, hpage, hindex] at h

/-- `get_buffer` serves every request of a consistent pool without panicking. -/
theorem Consistent.getBuffer (hs : s.Consistent) (size : ℕ) (kind : BufferKind) :
    ∃ buffer pool', s.inner.getBuffer size kind = some (buffer, pool') ∧
      Consistent ⟨pool', s.buffers ++ [buffer]⟩ ∧ Grows s.inner pool' := by
  cases hk : s.inner.getPoolForSize size with
  | none =>
    exact ⟨.secondary ⟨size, kind⟩, { s.inner with stats := s.inner.stats.reserveBytes size kind },
      by simp [PagedPoolInner.getBuffer, hk], hs.secondary size kind,
      Grows.of_pagesOf (fun _ => rfl) fun x page hp => ⟨page, hp⟩⟩
  | some k =>
    obtain ⟨hklt, hfit⟩ := PagedPoolInner.getPoolForSize_spec hk
    obtain ⟨bufferPtr, pool', hres, hcons, hgrows, hsize⟩ := hs.reserve hklt kind size
    refine ⟨.primary bufferPtr size, pool', ?_, hcons, hgrows⟩
    -- the size fits the buffer, so `new_primary` does not panic
    simp [PagedPoolInner.getBuffer, hk, hres, hsize, hfit]

/-- Dropping an outstanding buffer never panics. -/
theorem Consistent.drop (hs : s.Consistent) {buffer : PoolBufferInner} (hb : buffer ∈ s.buffers) :
    ∃ pool', s.inner.drop buffer = some pool' ∧ Consistent ⟨pool', s.buffers.erase buffer⟩ ∧
      Grows s.inner pool' := by
  cases buffer with
  | primary bufferPtr size =>
    obtain ⟨pool', hrelease, hcons⟩ := hs.release hb
    exact ⟨pool', hrelease, hcons, grows_of_release hrelease⟩
  | secondary buffer =>
    exact ⟨_, rfl, hs.dropSecondary hb, Grows.of_pagesOf (fun _ => rfl) fun x page hp => ⟨page, hp⟩⟩

/-! ### Every call, and every run -/

/-- One call on a consistent pool, dropping only an outstanding buffer: it does not panic and
the pool stays consistent; a call other than `trim` only adds pages, and `trim` takes out only
pages on which no outstanding buffer lies. -/
theorem Consistent.step_cases (hs : s.Consistent) {e : PoolEvent} (he : Outstanding (some s) e) :
    ∃ s', step (some s) e = some s' ∧
      ((s'.Consistent ∧ Grows s.inner s'.inner) ∨ (e = .trim ∧ TrimmedTo s s')) := by
  cases e with
  | getBuffer size kind =>
    obtain ⟨buffer, pool', hget, hcons, hgrows⟩ := hs.getBuffer size kind
    exact ⟨_, by simp [step, hget], .inl ⟨hcons, hgrows⟩⟩
  | drop buffer =>
    obtain ⟨pool', hdrop, hcons, hgrows⟩ := hs.drop (he s rfl)
    exact ⟨_, by simp [step, hdrop], .inl ⟨hcons, hgrows⟩⟩
  | trim => exact ⟨_, rfl, .inr ⟨rfl, hs.trim⟩⟩

theorem Consistent.step_consistent (hs : s.Consistent) {e : PoolEvent} (he : Outstanding (some s) e) :
    ∃ s', step (some s) e = some s' ∧ s'.Consistent := by
  obtain ⟨s', hstep, ⟨hcons, -⟩ | ⟨-, htrim⟩⟩ := hs.step_cases he
  · exact ⟨s', hstep, hcons⟩
  · exact ⟨s', hstep, htrim.consistent⟩

/-- A page stops being listed only by `trim`, and only when no outstanding buffer lies on it. -/
theorem Consistent.unlisted_step (hs : s.Consistent) {e : PoolEvent} (he : Outstanding (some s) e)
    {s' : PoolState} (hstep : step (some s) e = some s') {x : ℕ} (hl : s.inner.Listed x)
    (hl' : ¬s'.inner.Listed x) : e = .trim ∧ ∀ j, (x, j) ∉ s.slots := by
  obtain ⟨s'', hstep'', ⟨-, hgrows⟩ | ⟨htrim, hto⟩⟩ := hs.step_cases he
  all_goals rw [hstep] at hstep''; cases hstep''
  · exact absurd (hgrows.listed x hl) hl'
  · exact ⟨htrim, hto.unlisted x hl hl'⟩

/-- A removed page stays removed. -/
theorem Removed.of_step (hs : s.Consistent) {e : PoolEvent} (he : Outstanding (some s) e)
    {s' : PoolState} (hstep : step (some s) e = some s') {x : ℕ} (hr : s.Removed x) : s'.Removed x := by
  obtain ⟨⟨page, hpage⟩, hl⟩ := hr
  obtain ⟨s'', hstep'', ⟨-, hgrows⟩ | ⟨-, hto⟩⟩ := hs.step_cases he
  all_goals rw [hstep] at hstep''; cases hstep''
  · refine ⟨hgrows.allocated x page hpage, fun hl' => ?_⟩
    rcases hgrows.listed_new x hl' with hl'' | hnone
    · exact hl hl''
    · rw [hpage] at hnone
      cases hnone
  · exact ⟨hto.allocated x page hpage, fun hl' => hl (hto.listed x hl')⟩

/-- No outstanding buffer lies on a removed page. -/
theorem Consistent.not_mem_slots_of_removed (hs : s.Consistent) {x : ℕ} (hr : s.Removed x) (j : ℕ) :
    (x, j) ∉ s.slots := fun hmem => hr.2 (hs.slot_listed x j hmem).1

theorem consistent_new (sizes : PagedPool) : (new sizes).Consistent := by
  have hpages : ∀ k, (new sizes).inner.pagesOf k = [] := fun k => by
    simp only [new, PagedPoolInner.pagesOf, PagedPoolInner.new, List.getElem?_map]
    cases sizes.orderedSizePools[k]? <;> rfl
  constructor
  case nodup => simp [hpages]
  case mem_pagesOf => simp [hpages]
  case bufferSize_pos =>
    intro k hk
    simp only [new, PagedPoolInner.new, List.length_map] at hk
    simpa [new, PagedPoolInner.bufferSize, PagedPoolInner.new, List.getElem?_eq_getElem hk,
      SizePoolStats.new] using (sizes.valid _ (List.getElem_mem hk)).1
  case emptyPages =>
    intro k
    simp only [hpages, List.countP_nil]
    simp only [new, PagedPoolInner.statsOf, PagedPoolInner.new, List.getElem?_map]
    cases sizes.orderedSizePools[k]? <;> rfl
  case reservedBuffers =>
    intro k kind
    simp only [new, List.countP_nil]
    simp only [PagedPoolInner.statsOf, PagedPoolInner.new, List.getElem?_map]
    cases sizes.orderedSizePools[k]? <;> rfl
  case reservedBytes => intro kind; rfl
  case slots_nodup => exact List.nodup_nil
  case bitmask => intro id page hpage; cases hpage
  case slot_listed => intro id j h; cases h
  case removed_full => intro id page hpage; cases hpage
  case fresh => intro id _; rfl

/-- Every run from a consistent pool that drops only outstanding buffers keeps it consistent,
and never panics. -/
theorem consistent_run {s : PoolState} (hs : s.Consistent) (events : List PoolEvent)
    (hok : Allowed step Outstanding (some s) events) :
    ∃ s', run step (some s) events = some s' ∧ s'.Consistent := by
  refine run_invariant_of_allowed (P := fun o => ∃ s', o = some s' ∧ s'.Consistent) ?_ events
    ⟨s, rfl, hs⟩ hok
  rintro o e ⟨s', rfl, hs'⟩ he
  exact hs'.step_consistent he

/-- Along every such run a removed page stays removed. -/
theorem removed_run {s : PoolState} (hs : s.Consistent) (events : List PoolEvent)
    (hok : Allowed step Outstanding (some s) events) {x : ℕ} (hr : s.Removed x) :
    ∃ s', run step (some s) events = some s' ∧ s'.Consistent ∧ s'.Removed x := by
  refine run_invariant_of_allowed (P := fun o => ∃ s', o = some s' ∧ s'.Consistent ∧ s'.Removed x)
    ?_ events ⟨s, rfl, hs, hr⟩ hok
  rintro o e ⟨s', rfl, hs', hr'⟩ he
  obtain ⟨s'', hstep, hs''⟩ := hs'.step_consistent he
  exact ⟨s'', hstep, hs'', Removed.of_step hs' he hstep hr'⟩

end PoolState

/-- The bookkeeping of a pool built by `new_with_candidate_sizes`, after any run of
`get_buffer` calls, drops of the buffers it handed out, in any order, and `trim` calls: no call
panics; each size pool's `empty_pages` counts its pages with no bit set and its
`reserved_buffers` the outstanding primary buffers of each kind on its pages; the pool's
`reserved_bytes` sums the buffer size (primary) or size (secondary) of the outstanding buffers
of each kind; no two outstanding buffers share a slot; a page is taken out of its size pool
only by `trim` and only when no outstanding buffer lies on it, and a page taken out stays out
and holds no outstanding buffer from then on. -/
theorem paged_pool_bookkeeping (bufferSizes : List ℕ) (events : List PoolEvent)
    (hok : Allowed PoolState.step PoolState.Outstanding
      (some (PoolState.new (newWithCandidateSizes bufferSizes))) events) :
    ∃ s, run PoolState.step (some (PoolState.new (newWithCandidateSizes bufferSizes))) events = some s ∧
      (∀ k sizePool, s.inner.orderedSizePools[k]? = some sizePool →
        sizePool.stats.emptyPages = sizePool.pages.countP s.inner.isEmptyPage ∧
        ∀ kind, sizePool.stats.reservedBuffers kind =
          s.buffers.countP fun b => decide (b.kind = kind ∧ s.inner.sizePoolOf b = some k)) ∧
      (∀ kind, s.inner.stats.reservedBytes kind =
        ((s.buffers.filter fun b => decide (b.kind = kind)).map s.inner.reservedSize).sum) ∧
      s.slots.Nodup ∧
      (∀ e, PoolState.Outstanding (some s) e → ∃ s', PoolState.step (some s) e = some s' ∧
        ∀ x, s.inner.Listed x → ¬s'.inner.Listed x → e = .trim ∧ ∀ j, (x, j) ∉ s.slots) ∧
      ∀ x, s.Removed x → ∀ events', Allowed PoolState.step PoolState.Outstanding (some s) events' →
        ∃ s', run PoolState.step (some s) events' = some s' ∧ s'.Removed x ∧ ∀ j, (x, j) ∉ s'.slots := by
  obtain ⟨s, hrun, hs⟩ := PoolState.consistent_run (PoolState.consistent_new _) events hok
  refine ⟨s, hrun, fun k sizePool hk => ?_, hs.reservedBytes, hs.slots_nodup, fun e he => ?_,
    fun x hr events' hok' => ?_⟩
  · -- the counters of size pool `k` are those of `statsOf k` and `pagesOf k`
    have hstats : s.inner.statsOf k = sizePool.stats := by simp [PagedPoolInner.statsOf, hk]
    have hpages : s.inner.pagesOf k = sizePool.pages := by simp [PagedPoolInner.pagesOf, hk]
    exact ⟨hstats ▸ hpages ▸ hs.emptyPages k, fun kind => hstats ▸ hs.reservedBuffers k kind⟩
  · obtain ⟨s', hstep, -⟩ := hs.step_consistent he
    exact ⟨s', hstep, fun x hl hl' => hs.unlisted_step he hstep hl hl'⟩
  · obtain ⟨s', hrun', hs', hr'⟩ := PoolState.removed_run hs events' hok' hr
    exact ⟨s', hrun', hr', hs'.not_mem_slots_of_removed hr'⟩

/-- A buffer of a page, a secondary buffer, the drop of the first and a trim, which takes the
page out again. -/
theorem paged_pool_bookkeeping_one_page :
    Allowed PoolState.step PoolState.Outstanding (some (PoolState.new (newWithCandidateSizes [1024])))
        [.getBuffer 100 .other, .getBuffer 4096 .getObject, .drop (.primary ⟨0, 0, .other⟩ 100), .trim] ∧
      ∃ s, run PoolState.step (some (PoolState.new (newWithCandidateSizes [1024])))
          [.getBuffer 100 .other, .getBuffer 4096 .getObject, .drop (.primary ⟨0, 0, .other⟩ 100), .trim] =
            some s ∧ s.slots.Nodup :=
  have hbuffers : ((PoolState.step (PoolState.step (some (PoolState.new (newWithCandidateSizes [1024])))
      (.getBuffer 100 .other)) (.getBuffer 4096 .getObject)).map PoolState.buffers) =
        some [.primary ⟨0, 0, .other⟩ 100, .secondary ⟨4096, .getObject⟩] := by
    decide
  have hok : Allowed PoolState.step PoolState.Outstanding (some (PoolState.new (newWithCandidateSizes [1024])))
      [.getBuffer 100 .other, .getBuffer 4096 .getObject, .drop (.primary ⟨0, 0, .other⟩ 100), .trim] :=
    ⟨trivial, trivial, fun s hs => by
      rw [hs, Option.map_some, Option.some.injEq] at hbuffers
      simp [hbuffers], trivial, trivial⟩
  ⟨hok, (paged_pool_bookkeeping [1024] _ hok).imp fun _ h => ⟨h.1, h.2.2.2.1⟩⟩

end MountpointS3.Memory
