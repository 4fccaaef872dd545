import MountpointS3.DataCache.DiskBlock
import MountpointS3.DataCache.Usage
import MountpointS3.Foundations.Run

/-!
# The disk data cache

`DiskDataCache` of `disk_data_cache.rs`: the block files, by the key of their block, and the usage
the cache keeps of them under a limit. `get_block` reads a block file and, on a hit, refreshes the
block's recency; `put_block` checks the offset, makes the block, evicts least recently used blocks
while the limit is exceeded, then writes the block file and records its size.

What the file system answers to a put is an input of it (`PutFs`): what `statvfs` reports at each
round of eviction, which the available-space limit reads; whether removing an evicted block's
file fails, in which case the file stays and the failure is only logged; and whether the write
fails.

* `evictLoop_totalSize`: under a total size limit, eviction takes the fewest blocks off the front
  of the usage (`UsageInfo.evictCount`) and removes their files, but for those whose removal
  fails;
* `getBlock_hit`, `getBlock_miss`, `putBlock_of_offset`, `putBlock_of_new_error`, `putBlock_of_new`:
  what each call does;
* `Tracks`, `Tracks.step`, `Tracks.run`: over every run the running size is at most the sum of
  the recorded sizes, each recorded size is the one last written, and the usage is in order of
  last use; the size is the sum while every put leaves room below `usize::MAX` for the limit and
  its block, and without that room it can saturate.
-/

namespace MountpointS3.DataCache

open Foundations Checksums

/-- `DiskBlockKey`: the hash of the object's key and ETag, and the block index. -/
structure DiskBlockKey where
  hashedKey : List UInt8
  blockIndex : BlockIndex
  deriving DecidableEq, Repr

variable (sha256 : List UInt8 → List UInt8)

/-- `hash_cache_key_raw`. -/
def hashCacheKeyRaw (cacheKey : ObjectId) : List UInt8 :=
  sha256 (cacheVersion ++ utf8Bytes cacheKey.key ++ utf8Bytes cacheKey.etag)

/-- `DiskBlockKey::new`. -/
def DiskBlockKey.new (cacheKey : ObjectId) (blockIndex : BlockIndex) : DiskBlockKey :=
  ⟨hashCacheKeyRaw sha256 cacheKey, blockIndex⟩

/-- `CacheLimit`. -/
inductive CacheLimit
  | unbounded
  | totalSize (maxSize : ℕ)
  | availableSpace (minRatio : Float)
  deriving Repr

/-- `DEFAULT_CACHE_MIN_AVAILABLE_RATIO`. -/
def defaultCacheMinAvailableRatio : Float := 0.05

/-- `CacheLimit::default`, the limit `cli.rs` gives a cache without a maximum size. -/
def CacheLimit.default : CacheLimit := .availableSpace defaultCacheMinAvailableRatio

/-- `DiskDataCacheConfig`. -/
structure DiskDataCacheConfig where
  blockSize : UInt64
  limit : CacheLimit

/-- The block files of the cache directory, by the key of their block. -/
abbrev BlockFiles := DiskBlockKey → Option (List UInt8)

/-- `DiskDataCache`, with the cache directory's block files. -/
structure DiskDataCache where
  config : DiskDataCacheConfig
  files : BlockFiles
  usage : Option (UsageInfo DiskBlockKey)

/-- `DiskDataCache::new`, on an empty cache directory. -/
def DiskDataCache.new (config : DiskDataCacheConfig) : DiskDataCache :=
  { config, files := fun _ => none,
    usage := match config.limit with
      | .unbounded => none
      | .totalSize _ | .availableSpace _ => some .new }

/-- What `statvfs` of the cache directory reports: the blocks available, and the blocks of its
file system. -/
structure Statvfs where
  blocksAvailable : UInt64
  blocks : UInt64

/-- `DiskDataCache::is_limit_exceeded`, given what `statvfs` of the cache directory answers,
`none` where it fails; only the available-space limit asks. -/
def isLimitExceeded (limit : CacheLimit) (size : ℕ) (statvfs : Option Statvfs) : Bool :=
  match limit with
  | .unbounded => false
  | .totalSize maxSize => decide (size > maxSize)
  | .availableSpace minRatio =>
    match statvfs with
    -- an answer that cannot be used is logged, and counts as within the limit
    | none => false
    | some stats =>
      if stats.blocks = 0 then false
      else decide (stats.blocksAvailable.toFloat < minRatio * stats.blocks.toFloat)

/-- What the cache directory's file system answers to one `put_block`: what `statvfs` reports at
each round of the eviction loop, whether `fs::remove_file` of a block's file fails with an error
other than `NotFound`, and whether writing or persisting the block file fails. -/
structure PutFs where
  statvfs : ℕ → Option Statvfs
  removeFails : DiskBlockKey → Bool
  writeFails : Bool

/-- The loop of `DiskDataCache::evict_if_needed`: while the limit is exceeded, the least recently
used block is taken off the usage and its file removed. `statvfs` gives the answers from this
round on. -/
def evictLoop (limit : CacheLimit) (statvfs : ℕ → Option Statvfs) (removeFails : DiskBlockKey → Bool)
    (usage : UsageInfo DiskBlockKey) (files : BlockFiles) :
    Except DataCacheError Unit × UsageInfo DiskBlockKey × BlockFiles :=
  if !isLimitExceeded limit usage.size (statvfs 0) then (.ok (), usage, files)
  else
    match h : usage.evictLru with
    | (none, usage) => (.error .evictionFailure, usage, files)
    | (some toRemove, usage') =>
      -- a file whose removal fails stays, and the failure is only logged
      let files := if removeFails toRemove then files else Function.update files toRemove none
      evictLoop limit (fun n => statvfs (n + 1)) removeFails usage' files
termination_by usage.entries.entries.length
decreasing_by exact UsageInfo.length_evictLru_lt h

namespace DiskDataCache

/-- `DiskDataCache::evict_if_needed`. -/
def evictIfNeeded (self : DiskDataCache) (fs : PutFs) : Except DataCacheError Unit × DiskDataCache :=
  match self.usage with
  | none => (.ok (), self)
  | some usage =>
    let (result, usage, files) := evictLoop self.config.limit fs.statvfs fs.removeFails usage self.files
    (result, { self with usage := some usage, files })

variable (crc : Crc)

/-- `DiskDataCache::get_block`. -/
def getBlock (self : DiskDataCache) (cacheKey : ObjectId) (blockIdx : BlockIndex)
    (blockOffset : UInt64) : Except DataCacheError (Option ChecksummedBytes) × DiskDataCache :=
  if blockOffset ≠ blockIdx * self.config.blockSize then (.error .invalidBlockOffset, self)
  else
    let blockKey := DiskBlockKey.new sha256 cacheKey blockIdx
    match readBlock crc self.config.blockSize (self.files blockKey) cacheKey blockIdx blockOffset with
    | .ok none => (.ok none, self)
    | .ok (some bytes) =>
      match self.usage with
      | some usage => (.ok (some bytes), { self with usage := some (usage.refresh blockKey).2 })
      | none => (.ok (some bytes), self)
    | .error err => (.error err, self)

/-- `DiskDataCache::put_block`, on the file system's answers `fs`. -/
def putBlock (self : DiskDataCache) (cacheKey : ObjectId) (blockIdx : BlockIndex)
    (blockOffset : UInt64) (bytes : ChecksummedBytes) (fs : PutFs) :
    Except DataCacheError Unit × DiskDataCache :=
  if blockOffset ≠ blockIdx * self.config.blockSize then (.error .invalidBlockOffset, self)
  else
    let blockKey := DiskBlockKey.new sha256 cacheKey blockIdx
    match DiskBlock.new crc cacheKey blockIdx blockOffset bytes with
    | .error _ => (.error .invalidBlockContent, self)
    | .ok block =>
      match self.evictIfNeeded fs with
      | (.error e, self) => (.error e, self)
      | (.ok (), self) =>
        if fs.writeFails then (.error .ioFailure, self)
        else
          let (file, size) := writeBlock block
          let self := { self with files := Function.update self.files blockKey (some file) }
          match self.usage with
          | some usage => (.ok (), { self with usage := some (usage.add blockKey size) })
          | none => (.ok (), self)

end DiskDataCache

/-! ## Eviction -/

/-- The block files after those of `keys` are removed, but for those whose removal fails. -/
def removeFiles (files : BlockFiles) (keys : List DiskBlockKey) (removeFails : DiskBlockKey → Bool) :
    BlockFiles :=
  fun k => if k ∈ keys ∧ removeFails k = false then none else files k

@[simp] theorem removeFiles_nil (files : BlockFiles) (removeFails : DiskBlockKey → Bool) :
    removeFiles files [] removeFails = files := by
  funext k
  simp [removeFiles]

theorem removeFiles_cons (files : BlockFiles) (k : DiskBlockKey) (keys : List DiskBlockKey)
    (removeFails : DiskBlockKey → Bool) :
    removeFiles (if removeFails k then files else Function.update files k none) keys removeFails =
      removeFiles files (k :: keys) removeFails := by
  funext k'
  by_cases hk : k' = k
  · subst hk
    cases hf : removeFails k' <;> simp [removeFiles, hf]
  · cases removeFails k <;> simp [removeFiles, hk, Function.update]

/-- An evicted block's file is removed, unless its removal fails. -/
theorem removeFiles_of_mem (files : BlockFiles) {keys : List DiskBlockKey} (removeFails : DiskBlockKey → Bool)
    {k : DiskBlockKey} (hk : k ∈ keys) :
    removeFiles files keys removeFails k = if removeFails k then files k else none := by
  cases hf : removeFails k <;> simp [removeFiles, hk, hf]

/-- The keys of the `n` least recently used blocks. -/
def lruKeys (u : UsageInfo DiskBlockKey) (n : ℕ) : List DiskBlockKey :=
  (u.entries.entries.take n).map Prod.fst

theorem lruKeys_succ {u : UsageInfo DiskBlockKey} {k : DiskBlockKey} {s : ℕ}
    {rest : List (DiskBlockKey × ℕ)} (h : u.entries.entries = (k, s) :: rest) (n : ℕ) :
    lruKeys u (n + 1) = k :: lruKeys (u.evictFront 1) n := by
  simp [lruKeys, h, UsageInfo.evictFront]

/-- Under a size limit, and with the size at most the sum of the recorded sizes, eviction
succeeds: it takes the fewest least recently used blocks that bring the size within the limit
off the usage, and removes their files, but for those whose removal fails. -/
theorem evictLoop_totalSize (maxSize : ℕ) (statvfs : ℕ → Option Statvfs) (removeFails : DiskBlockKey → Bool)
    (u : UsageInfo DiskBlockKey) (files : BlockFiles) (h : u.size ≤ u.total) :
    evictLoop (.totalSize maxSize) statvfs removeFails u files =
      (.ok (), u.evictFront (UsageInfo.evictCount maxSize u.size u.entries.entries),
        removeFiles files (lruKeys u (UsageInfo.evictCount maxSize u.size u.entries.entries)) removeFails) := by
  -- induction on the entries, which each round of the loop shortens by one
  induction hl : u.entries.entries generalizing u files statvfs with
  | nil =>
    have hsize : u.size = 0 := by simpa [UsageInfo.total, hl] using h
    rw [evictLoop]
    simp [isLimitExceeded, hsize, UsageInfo.evictCount, UsageInfo.evictFront_zero, lruKeys]
  | cons e rest ih =>
    obtain ⟨k, s⟩ := e
    obtain ⟨hk, hevict⟩ := UsageInfo.evictLru_of_cons hl
    rw [evictLoop]
    by_cases hs : u.size ≤ maxSize
    · simp [isLimitExceeded, hs, UsageInfo.evictCount, UsageInfo.evictFront_zero, lruKeys]
    · have hpair : u.evictLru = (some k, u.evictFront 1) := Prod.ext hk hevict
      have hrest : (u.evictFront 1).entries.entries = rest := by simp [UsageInfo.evictFront, hl]
      have hle : (u.evictFront 1).size ≤ (u.evictFront 1).total :=
        UsageInfo.size_le_total_evictFront h 1
      -- one round evicts the front block, and the loop goes on from what is left
      have hcount : UsageInfo.evictCount maxSize u.size ((k, s) :: rest) =
          UsageInfo.evictCount maxSize (u.evictFront 1).size rest + 1 := by
        simp [UsageInfo.evictCount, hs, UsageInfo.evictFront, UsageInfo.prefixSize, hl]
      simp only [isLimitExceeded, gt_iff_lt, not_le.1 hs, decide_true, Bool.not_true,
        Bool.false_eq_true, if_false]
      split
      · rename_i heq
        rw [hpair] at heq
        cases heq
      · rename_i toRemove usage' heq
        rw [hpair] at heq
        obtain ⟨rfl, rfl⟩ := Prod.mk.inj heq |>.imp Option.some.inj id
        rw [ih _ (u.evictFront 1) _ hle hrest, hcount, UsageInfo.evictFront_succ hl, removeFiles_cons,
          lruKeys_succ hl]

/-! ## The calls -/

namespace DiskDataCache

variable {sha256} {crc : Crc} {c : DiskDataCache} {cacheKey : ObjectId} {blockIdx : BlockIndex}
  {blockOffset : UInt64} {bytes : ChecksummedBytes} {fs : PutFs}

/-- The cache with the recency of `key` refreshed in its usage. -/
def refreshUsage (c : DiskDataCache) (key : DiskBlockKey) : DiskDataCache :=
  match c.usage with
  | some usage => { c with usage := some (usage.refresh key).2 }
  | none => c

/-- A hit refreshes the block's recency, and changes nothing else. -/
theorem getBlock_hit {hit : ChecksummedBytes}
    (h : (c.getBlock sha256 crc cacheKey blockIdx blockOffset).1 = .ok (some hit)) :
    (c.getBlock sha256 crc cacheKey blockIdx blockOffset).2 =
      c.refreshUsage (DiskBlockKey.new sha256 cacheKey blockIdx) := by
  unfold getBlock at h ⊢
  by_cases hoff : blockOffset ≠ blockIdx * c.config.blockSize
  · simp [hoff] at h
  · rw [if_neg hoff] at h ⊢
    dsimp only at h ⊢
    generalize readBlock crc c.config.blockSize (c.files (DiskBlockKey.new sha256 cacheKey blockIdx))
      cacheKey blockIdx blockOffset = r at h ⊢
    rcases r with e | _ | b
    · cases h
    · cases h
    · cases hu : c.usage <;> simp [refreshUsage, hu]

/-- A call that is not a hit changes nothing. -/
theorem getBlock_miss
    (h : ∀ hit, (c.getBlock sha256 crc cacheKey blockIdx blockOffset).1 ≠ .ok (some hit)) :
    (c.getBlock sha256 crc cacheKey blockIdx blockOffset).2 = c := by
  unfold getBlock at h ⊢
  by_cases hoff : blockOffset ≠ blockIdx * c.config.blockSize
  · rw [if_pos hoff]
  · rw [if_neg hoff] at h ⊢
    dsimp only at h ⊢
    generalize readBlock crc c.config.blockSize (c.files (DiskBlockKey.new sha256 cacheKey blockIdx))
      cacheKey blockIdx blockOffset = r at h ⊢
    rcases r with e | _ | b
    · rfl
    · rfl
    · cases hu : c.usage <;> simp [hu] at h

theorem putBlock_of_offset (h : blockOffset ≠ blockIdx * c.config.blockSize) :
    c.putBlock sha256 crc cacheKey blockIdx blockOffset bytes fs =
      (.error .invalidBlockOffset, c) :=
  if_pos h

theorem putBlock_of_new_error (hoff : blockOffset = blockIdx * c.config.blockSize)
    {e : DiskBlockCreationError} (hnew : DiskBlock.new crc cacheKey blockIdx blockOffset bytes = .error e) :
    c.putBlock sha256 crc cacheKey blockIdx blockOffset bytes fs =
      (.error .invalidBlockContent, c) := by
  rw [putBlock, if_neg (not_not_intro hoff)]
  simp only [hnew]

/-- A put whose checks pass evicts, then writes the block file and records its size, unless the
write fails. -/
theorem putBlock_of_new (hoff : blockOffset = blockIdx * c.config.blockSize) {block : DiskBlock}
    (hnew : DiskBlock.new crc cacheKey blockIdx blockOffset bytes = .ok block) {c' : DiskDataCache}
    (hevict : c.evictIfNeeded fs = (.ok (), c')) {u' : UsageInfo DiskBlockKey} (hu' : c'.usage = some u') :
    c.putBlock sha256 crc cacheKey blockIdx blockOffset bytes fs =
      if fs.writeFails then (.error .ioFailure, c')
      else (.ok (), { c' with
        files := Function.update c'.files (DiskBlockKey.new sha256 cacheKey blockIdx)
          (some (writeBlock block).1),
        usage := some (u'.add (DiskBlockKey.new sha256 cacheKey blockIdx) (writeBlock block).2) }) := by
  rw [putBlock, if_neg (not_not_intro hoff)]
  simp only [hnew, hevict]
  split_ifs
  · rfl
  · simp [hu']

/-- Under a size limit, with the usage's size at most the sum of its recorded sizes. -/
theorem evictIfNeeded_totalSize {maxSize : ℕ} (hlimit : c.config.limit = .totalSize maxSize)
    {u : UsageInfo DiskBlockKey} (hu : c.usage = some u) (h : u.size ≤ u.total) (fs : PutFs) :
    c.evictIfNeeded fs =
      (.ok (), { c with
        usage := some (u.evictFront (UsageInfo.evictCount maxSize u.size u.entries.entries)),
        files := removeFiles c.files (lruKeys u (UsageInfo.evictCount maxSize u.size u.entries.entries))
          fs.removeFails }) := by
  simp only [evictIfNeeded, hu, hlimit, evictLoop_totalSize maxSize fs.statvfs fs.removeFails u c.files h]

@[simp] theorem config_refreshUsage (c : DiskDataCache) (key : DiskBlockKey) :
    (c.refreshUsage key).config = c.config := by
  unfold refreshUsage
  split <;> rfl

@[simp] theorem config_getBlock :
    (c.getBlock sha256 crc cacheKey blockIdx blockOffset).2.config = c.config := by
  by_cases h : ∃ hit, (c.getBlock sha256 crc cacheKey blockIdx blockOffset).1 = .ok (some hit)
  · obtain ⟨hit, h⟩ := h
    rw [getBlock_hit h, config_refreshUsage]
  · rw [getBlock_miss fun hit h' => h ⟨hit, h'⟩]

@[simp] theorem config_evictIfNeeded (c : DiskDataCache) (fs : PutFs) : (c.evictIfNeeded fs).2.config = c.config := by
  unfold evictIfNeeded
  split <;> rfl

@[simp] theorem config_putBlock :
    (c.putBlock sha256 crc cacheKey blockIdx blockOffset bytes fs).2.config = c.config := by
  unfold putBlock
  have hev := config_evictIfNeeded c fs
  generalize c.evictIfNeeded fs = ev at hev ⊢
  obtain ⟨res, c'⟩ := ev
  dsimp only at hev
  -- every branch returns `c`, or the `c'` of eviction with a file or a usage changed
  rcases res with e | ⟨⟩ <;> dsimp only <;> repeat' split
  all_goals first | rfl | exact hev

end DiskDataCache

/-- The block a put makes is written as its encoded header and its bytes. -/
theorem writeBlock_new {crc : Crc} {cacheKey : ObjectId} {blockIdx : BlockIndex} {blockOffset : UInt64}
    {bytes : ChecksummedBytes} {block : DiskBlock}
    (hnew : DiskBlock.new crc cacheKey blockIdx blockOffset bytes = .ok block) :
    (writeBlock block).2 = encodedLength cacheKey.etag cacheKey.key + bytes.len := by
  unfold DiskBlock.new at hnew
  split at hnew
  · cases hnew
  · rename_i data dataChecksum hinner
    cases hnew
    simp only [writeBlock, DiskBlock.write, DiskBlockHeader.length_encode, DiskBlockHeader.new]
    rw [← ChecksummedBytes.length_intoInner hinner]

/-! ## Runs -/

/-- A call on the cache, a put with what the file system answers to it. -/
inductive CacheEvent
  | getBlock (cacheKey : ObjectId) (blockIdx : BlockIndex) (blockOffset : UInt64)
  | putBlock (cacheKey : ObjectId) (blockIdx : BlockIndex) (blockOffset : UInt64)
      (bytes : ChecksummedBytes) (fs : PutFs)

/-- What a run has done to each block, which the cache is stated against: a clock counting the
calls, the call at which each block was last used (a successful put or a get hit), the size
`write_block` reported at its last successful put, and the object and bytes of that put. -/
structure History where
  clock : ℕ
  lastUse : DiskBlockKey → ℕ
  lastWritten : DiskBlockKey → Option ℕ
  lastPut : DiskBlockKey → Option (ObjectId × ChecksummedBytes)

namespace History

/-- The history of a run with no calls. -/
def init : History := ⟨0, fun _ => 0, fun _ => none, fun _ => none⟩

/-- A call that uses no block. -/
def tick (h : History) : History := { h with clock := h.clock + 1 }

/-- A call that uses the block `key`. -/
def use (h : History) (key : DiskBlockKey) : History :=
  { h with clock := h.clock + 1, lastUse := Function.update h.lastUse key h.clock }

/-- A put of `put`, that writes `size` bytes for the block `key`. -/
def write (h : History) (key : DiskBlockKey) (size : ℕ) (put : ObjectId × ChecksummedBytes) : History :=
  { h.use key with
    lastWritten := Function.update h.lastWritten key (some size)
    lastPut := Function.update h.lastPut key (some put) }

end History

/-- The cache over a run, with its history. -/
structure CacheRun where
  cache : DiskDataCache
  history : History

/-- A new cache, before any call. -/
def CacheRun.new (config : DiskDataCacheConfig) : CacheRun := ⟨DiskDataCache.new config, .init⟩

variable (crc : Crc)

/-- The bytes `write_block` reports for the block a put makes, `0` where it makes none. -/
def bytesWritten (cacheKey : ObjectId) (blockIdx : BlockIndex) (blockOffset : UInt64)
    (bytes : ChecksummedBytes) : ℕ :=
  match DiskBlock.new crc cacheKey blockIdx blockOffset bytes with
  | .ok block => (writeBlock block).2
  | .error _ => 0

/-- One call of a run. -/
def CacheRun.step (r : CacheRun) : CacheEvent → CacheRun
  | .getBlock cacheKey blockIdx blockOffset =>
    let key := DiskBlockKey.new sha256 cacheKey blockIdx
    match r.cache.getBlock sha256 crc cacheKey blockIdx blockOffset with
    | (.ok (some _), cache) => ⟨cache, r.history.use key⟩
    | (_, cache) => ⟨cache, r.history.tick⟩
  | .putBlock cacheKey blockIdx blockOffset bytes fs =>
    let key := DiskBlockKey.new sha256 cacheKey blockIdx
    match r.cache.putBlock sha256 crc cacheKey blockIdx blockOffset bytes fs with
    | (.ok (), cache) =>
      ⟨cache, r.history.write key (bytesWritten crc cacheKey blockIdx blockOffset bytes) (cacheKey, bytes)⟩
    | (.error _, cache) => ⟨cache, r.history.tick⟩

/-- A put leaves room below `usize::MAX` for the limit and the block it writes. -/
def PutFits (maxSize : ℕ) : CacheEvent → Prop
  | .getBlock .. => True
  | .putBlock cacheKey _ _ bytes _ =>
    maxSize + encodedLength cacheKey.etag cacheKey.key + bytes.len ≤ usizeMax

instance (maxSize : ℕ) : DecidablePred (PutFits maxSize) := fun e =>
  match e with
  | .getBlock .. => isTrue trivial
  | .putBlock cacheKey _ _ bytes _ =>
    inferInstanceAs (Decidable (maxSize + encodedLength cacheKey.etag cacheKey.key + bytes.len ≤ usizeMax))

/-! ## What the usage keeps -/

/-- What the usage keeps over a run, against its history. -/
structure Tracks (h : History) (u : UsageInfo DiskBlockKey) : Prop where
  /-- The running size is at most the sum of the recorded sizes. -/
  size_le : u.size ≤ u.total
  /-- Each recorded size is what `write_block` reported at the block's last successful put. -/
  written : ∀ e ∈ u.entries.entries, h.lastWritten e.1 = some e.2
  /-- The blocks are in order of last use, least recent first. -/
  lru : u.entries.entries.Pairwise fun a b => h.lastUse a.1 < h.lastUse b.1
  /-- Every block was used before the current call. -/
  used : ∀ e ∈ u.entries.entries, h.lastUse e.1 < h.clock

theorem Tracks.init : Tracks .init (UsageInfo.new : UsageInfo DiskBlockKey) :=
  ⟨le_rfl, by simp [UsageInfo.new, LinkedHashMap.new], by simp [UsageInfo.new, LinkedHashMap.new],
    by simp [UsageInfo.new, LinkedHashMap.new]⟩

theorem Tracks.tick {h : History} {u : UsageInfo DiskBlockKey} (ht : Tracks h u) : Tracks h.tick u :=
  ⟨ht.size_le, ht.written, ht.lru, fun e he => Nat.lt_succ_of_lt (ht.used e he)⟩

theorem Tracks.evictFront {h : History} {u : UsageInfo DiskBlockKey} (ht : Tracks h u) (n : ℕ) :
    Tracks h (u.evictFront n) where
  size_le := UsageInfo.size_le_total_evictFront ht.size_le n
  written e he := ht.written e (List.mem_of_mem_drop he)
  lru := ht.lru.sublist (List.drop_sublist n _)
  used e he := ht.used e (List.mem_of_mem_drop he)

/-- Moving the block just used to the back keeps the order of last use. -/
theorem pairwise_use {h : History} {m : LinkedHashMap DiskBlockKey ℕ}
    (hlru : m.entries.Pairwise fun a b => h.lastUse a.1 < h.lastUse b.1)
    (hused : ∀ e ∈ m.entries, h.lastUse e.1 < h.clock) (key : DiskBlockKey) (v : ℕ) :
    (m.moveToBack key v).entries.Pairwise fun a b => (h.use key).lastUse a.1 < (h.use key).lastUse b.1 := by
  apply LinkedHashMap.pairwise_moveToBack
  · -- the other blocks keep their last use
    refine (hlru.sublist List.filter_sublist).imp_of_mem fun ha hb hab => ?_
    have ha' := of_decide_eq_true (List.mem_filter.1 ha).2
    have hb' := of_decide_eq_true (List.mem_filter.1 hb).2
    simpa [History.use, Function.update, ha', hb'] using hab
  · intro e he hek
    simpa [History.use, Function.update, hek] using hused e he

theorem used_use {h : History} {m : LinkedHashMap DiskBlockKey ℕ}
    (hused : ∀ e ∈ m.entries, h.lastUse e.1 < h.clock) (key : DiskBlockKey) (v : ℕ) :
    ∀ e ∈ (m.moveToBack key v).entries, (h.use key).lastUse e.1 < (h.use key).clock := by
  intro e he
  rcases LinkedHashMap.mem_moveToBack.1 he with rfl | ⟨hek, he⟩
  · simp [History.use]
  · have := hused e he
    simp only [History.use, Function.update, hek, dite_false]
    omega

theorem Tracks.refresh {h : History} {u : UsageInfo DiskBlockKey} (ht : Tracks h u) (key : DiskBlockKey) :
    Tracks (h.use key) (u.refresh key).2 := by
  cases hv : u.entries.get? key with
  | none =>
    -- a key the usage does not know: only its own last use moves
    rw [UsageInfo.refresh_of_get?_eq_none hv]
    have hkey : ∀ e ∈ u.entries.entries, e.1 ≠ key := fun e he hek =>
      LinkedHashMap.get?_eq_none_iff.1 hv (List.mem_map.2 ⟨e, he, hek⟩)
    refine ⟨ht.size_le, ht.written, ht.lru.imp_of_mem fun ha hb hab => ?_, fun e he => ?_⟩
    · simpa [History.use, Function.update, hkey _ ha, hkey _ hb] using hab
    · simpa [History.use, Function.update, hkey e he] using Nat.lt_succ_of_lt (ht.used e he)
  | some v =>
    rw [UsageInfo.refresh_of_get? hv]
    refine ⟨?_, fun e he => ?_, pairwise_use ht.lru ht.used key v, used_use ht.used key v⟩
    · have htotal := UsageInfo.total_refresh u key
      rw [UsageInfo.refresh_of_get? hv] at htotal
      rw [htotal]
      exact ht.size_le
    · rcases LinkedHashMap.mem_moveToBack.1 he with rfl | ⟨-, he⟩
      · exact ht.written _ (LinkedHashMap.get?_eq_some_iff.1 hv)
      · exact ht.written e he

theorem Tracks.add {h : History} {u : UsageInfo DiskBlockKey} (ht : Tracks h u) (key : DiskBlockKey)
    (size : ℕ) (put : ObjectId × ChecksummedBytes) : Tracks (h.write key size put) (u.add key size) := by
  refine ⟨UsageInfo.size_le_total_add ht.size_le key size, fun e he => ?_, ?_, ?_⟩
  · rw [UsageInfo.entries_add] at he
    rcases LinkedHashMap.mem_moveToBack.1 he with rfl | ⟨hek, he⟩
    · simp [History.write]
    · simpa [History.write, Function.update, hek] using ht.written e he
  · rw [UsageInfo.entries_add]
    exact pairwise_use ht.lru ht.used key size
  · rw [UsageInfo.entries_add]
    exact used_use ht.used key size

/-! ## One call -/

section Step

variable {sha256 crc} {r : CacheRun}

theorem cache_step_getBlock (cacheKey : ObjectId) (blockIdx : BlockIndex) (blockOffset : UInt64) :
    (r.step sha256 crc (.getBlock cacheKey blockIdx blockOffset)).cache =
      (r.cache.getBlock sha256 crc cacheKey blockIdx blockOffset).2 := by
  simp only [CacheRun.step]
  split <;> rename_i heq <;> rw [heq]

theorem cache_step_putBlock (cacheKey : ObjectId) (blockIdx : BlockIndex) (blockOffset : UInt64)
    (bytes : ChecksummedBytes) (fs : PutFs) :
    (r.step sha256 crc (.putBlock cacheKey blockIdx blockOffset bytes fs)).cache =
      (r.cache.putBlock sha256 crc cacheKey blockIdx blockOffset bytes fs).2 := by
  simp only [CacheRun.step]
  split <;> rename_i heq <;> rw [heq]

theorem history_step_putBlock_ok {cacheKey : ObjectId} {blockIdx : BlockIndex} {blockOffset : UInt64}
    {bytes : ChecksummedBytes} {fs : PutFs}
    (h : (r.cache.putBlock sha256 crc cacheKey blockIdx blockOffset bytes fs).1 = .ok ()) :
    (r.step sha256 crc (.putBlock cacheKey blockIdx blockOffset bytes fs)).history =
      r.history.write (DiskBlockKey.new sha256 cacheKey blockIdx)
        (bytesWritten crc cacheKey blockIdx blockOffset bytes) (cacheKey, bytes) := by
  simp only [CacheRun.step]
  split
  · rfl
  · rename_i heq
    rw [heq] at h
    cases h

theorem history_step_putBlock_error {cacheKey : ObjectId} {blockIdx : BlockIndex} {blockOffset : UInt64}
    {bytes : ChecksummedBytes} {fs : PutFs} {e : DataCacheError}
    (h : (r.cache.putBlock sha256 crc cacheKey blockIdx blockOffset bytes fs).1 = .error e) :
    (r.step sha256 crc (.putBlock cacheKey blockIdx blockOffset bytes fs)).history = r.history.tick := by
  simp only [CacheRun.step]
  split
  · rename_i heq
    rw [heq] at h
    cases h
  · rfl

@[simp] theorem config_step (e : CacheEvent) :
    (r.step sha256 crc e).cache.config = r.cache.config := by
  cases e with
  | getBlock => rw [cache_step_getBlock, DiskDataCache.config_getBlock]
  | putBlock => rw [cache_step_putBlock, DiskDataCache.config_putBlock]

variable {maxSize : ℕ} {u : UsageInfo DiskBlockKey}

/-- A put that passes its checks and whose write succeeds evicts, then records its block. -/
theorem usage_step_putBlock (hlimit : r.cache.config.limit = .totalSize maxSize)
    (hu : r.cache.usage = some u) (hsize : u.size ≤ u.total) {cacheKey : ObjectId} {blockIdx : BlockIndex}
    {blockOffset : UInt64} {bytes : ChecksummedBytes} (hoff : blockOffset = blockIdx * r.cache.config.blockSize)
    {block : DiskBlock} (hnew : DiskBlock.new crc cacheKey blockIdx blockOffset bytes = .ok block) {fs : PutFs}
    (hwrite : fs.writeFails = false) :
    (r.step sha256 crc (.putBlock cacheKey blockIdx blockOffset bytes fs)).cache.usage =
      some ((u.evictFront (UsageInfo.evictCount maxSize u.size u.entries.entries)).add
        (DiskBlockKey.new sha256 cacheKey blockIdx) (writeBlock block).2) := by
  rw [cache_step_putBlock, DiskDataCache.putBlock_of_new hoff hnew
    (DiskDataCache.evictIfNeeded_totalSize hlimit hu hsize fs) rfl, hwrite]
  rfl

/-- A put into a cache within its limit evicts nothing: it records its block on the usage as it
was. -/
theorem usage_step_putBlock_of_le (hlimit : r.cache.config.limit = .totalSize maxSize)
    (hu : r.cache.usage = some u) (hsize : u.size ≤ u.total) (hwithin : u.size ≤ maxSize)
    {cacheKey : ObjectId} {blockIdx : BlockIndex} {blockOffset : UInt64} {bytes : ChecksummedBytes}
    (hoff : blockOffset = blockIdx * r.cache.config.blockSize) {block : DiskBlock}
    (hnew : DiskBlock.new crc cacheKey blockIdx blockOffset bytes = .ok block) {fs : PutFs}
    (hwrite : fs.writeFails = false) :
    (r.step sha256 crc (.putBlock cacheKey blockIdx blockOffset bytes fs)).cache.usage =
      some (u.add (DiskBlockKey.new sha256 cacheKey blockIdx) (writeBlock block).2) := by
  rw [usage_step_putBlock hlimit hu hsize hoff hnew hwrite, UsageInfo.evictCount_of_le hwithin,
    UsageInfo.evictFront_zero]

/-- What one call does to a cache under a size limit whose usage is at most the sum of its
recorded sizes: nothing but tick the clock; refresh a block on a hit; evict the fewest least
recently used blocks that bring the size within the limit, for a put whose write fails; or evict
them and record the block written, for a put that succeeds. -/
theorem step_cases (hlimit : r.cache.config.limit = .totalSize maxSize) (hu : r.cache.usage = some u)
    (hsize : u.size ≤ u.total) (e : CacheEvent) :
    ((r.step sha256 crc e).cache.usage = some u ∧ (r.step sha256 crc e).history = r.history.tick) ∨
    (∃ key, (r.step sha256 crc e).cache.usage = some (u.refresh key).2 ∧
      (r.step sha256 crc e).history = r.history.use key) ∨
    (∃ n, (u.evictFront n).size ≤ maxSize ∧ (r.step sha256 crc e).cache.usage = some (u.evictFront n) ∧
      (r.step sha256 crc e).history = r.history.tick) ∨
    (∃ n key w put, (u.evictFront n).size ≤ maxSize ∧ (PutFits maxSize e → maxSize + w ≤ usizeMax) ∧
      (r.step sha256 crc e).cache.usage = some ((u.evictFront n).add key w) ∧
      (r.step sha256 crc e).history = r.history.write key w put) := by
  cases e with
  | getBlock cacheKey blockIdx blockOffset =>
    by_cases hhit : ∃ hit, (r.cache.getBlock sha256 crc cacheKey blockIdx blockOffset).1 = .ok (some hit)
    · -- a hit: the block is refreshed and counts as used
      obtain ⟨hit, hhit⟩ := hhit
      have hpair : r.cache.getBlock sha256 crc cacheKey blockIdx blockOffset =
          (.ok (some hit), r.cache.refreshUsage (DiskBlockKey.new sha256 cacheKey blockIdx)) :=
        Prod.ext hhit (DiskDataCache.getBlock_hit hhit)
      refine .inr (.inl ⟨DiskBlockKey.new sha256 cacheKey blockIdx, ?_, ?_⟩) <;>
        simp [CacheRun.step, hpair, DiskDataCache.refreshUsage, hu]
    · have hmiss := DiskDataCache.getBlock_miss fun hit h => hhit ⟨hit, h⟩
      refine .inl ?_
      generalize hres : (r.cache.getBlock sha256 crc cacheKey blockIdx blockOffset).1 = res at hhit
      have hpair : r.cache.getBlock sha256 crc cacheKey blockIdx blockOffset = (res, r.cache) :=
        Prod.ext hres hmiss
      rcases res with err | _ | hit
      · simp [CacheRun.step, hpair, hu]
      · simp [CacheRun.step, hpair, hu]
      · exact absurd ⟨hit, rfl⟩ hhit
  | putBlock cacheKey blockIdx blockOffset bytes fs =>
    by_cases hoff : blockOffset = blockIdx * r.cache.config.blockSize
    · cases hnew : DiskBlock.new crc cacheKey blockIdx blockOffset bytes with
      | error err =>
        exact .inl (by simp [CacheRun.step, DiskDataCache.putBlock_of_new_error hoff hnew, hu])
      | ok block =>
        -- the checks pass: eviction, then the write
        have hev := DiskDataCache.evictIfNeeded_totalSize hlimit hu hsize fs
        have hwithin := (UsageInfo.evictCount_fewest maxSize hsize).1
        have hwritten : bytesWritten crc cacheKey blockIdx blockOffset bytes = (writeBlock block).2 := by
          simp [bytesWritten, hnew]
        cases hwrite : fs.writeFails with
        | true =>
          refine .inr (.inr (.inl ⟨_, hwithin, ?_, ?_⟩)) <;>
            simp [CacheRun.step, DiskDataCache.putBlock_of_new hoff hnew hev rfl, hwrite]
        | false =>
          refine .inr (.inr (.inr ⟨_, DiskBlockKey.new sha256 cacheKey blockIdx, (writeBlock block).2,
            (cacheKey, bytes), hwithin, fun hfit => ?_, ?_, ?_⟩))
          · have := writeBlock_new hnew
            simp only [PutFits] at hfit
            omega
          · exact usage_step_putBlock hlimit hu hsize hoff hnew hwrite
          · simp [CacheRun.step, DiskDataCache.putBlock_of_new hoff hnew hev rfl, hwritten, hwrite]
    · exact .inl (by simp [CacheRun.step, DiskDataCache.putBlock_of_offset hoff, hu])

end Step

/-! ## Whole runs -/

section Runs

variable {sha256 crc} {maxSize : ℕ}

/-- One call keeps the usage's accounting, and keeps its size equal to the sum of the recorded
sizes when a put leaves room for its block. -/
theorem Tracks.step {r : CacheRun} (hlimit : r.cache.config.limit = .totalSize maxSize)
    {u : UsageInfo DiskBlockKey} (hu : r.cache.usage = some u) (ht : Tracks r.history u) (e : CacheEvent) :
    ∃ u', (r.step sha256 crc e).cache.usage = some u' ∧ Tracks (r.step sha256 crc e).history u' ∧
      (u.size = u.total → PutFits maxSize e → u'.size = u'.total) := by
  rcases step_cases hlimit hu ht.size_le e with ⟨hu', hh⟩ | ⟨key, hu', hh⟩ | ⟨n, -, hu', hh⟩ |
      ⟨n, key, w, put, hwithin, hroom, hu', hh⟩ <;> rw [hh] <;> refine ⟨_, hu', ?_, fun hexact hfit => ?_⟩
  · exact ht.tick
  · exact hexact
  · exact ht.refresh key
  · rw [UsageInfo.size_refresh, UsageInfo.total_refresh, hexact]
  · exact (ht.evictFront n).tick
  · exact UsageInfo.size_eq_total_evictFront hexact n
  · exact (ht.evictFront n).add key w put
  · -- the size after eviction is within the limit, and the limit leaves room for the block
    have hevicted := UsageInfo.size_eq_total_evictFront hexact n
    exact UsageInfo.size_eq_total_add hevicted (by have := hroom hfit; omega)

/-- Every run from a cache whose usage keeps its accounting keeps it. -/
theorem Tracks.run {r : CacheRun} (hlimit : r.cache.config.limit = .totalSize maxSize)
    {u : UsageInfo DiskBlockKey} (hu : r.cache.usage = some u) (ht : Tracks r.history u)
    (events : List CacheEvent) :
    (run (CacheRun.step sha256 crc) r events).cache.config = r.cache.config ∧
      ∃ u', (run (CacheRun.step sha256 crc) r events).cache.usage = some u' ∧
        Tracks (run (CacheRun.step sha256 crc) r events).history u' ∧
        (u.size = u.total → (∀ e ∈ events, PutFits maxSize e) → u'.size = u'.total) := by
  -- induction on the calls, from the state each one leaves
  induction events generalizing r u with
  | nil => exact ⟨rfl, u, hu, ht, fun hexact _ => hexact⟩
  | cons e events ih =>
    obtain ⟨u₁, hu₁, ht₁, hexact₁⟩ := ht.step hlimit hu e
    have hlimit₁ : (r.step sha256 crc e).cache.config.limit = .totalSize maxSize := by
      rw [config_step, hlimit]
    obtain ⟨hconfig, u', hu', ht', hexact'⟩ := ih hlimit₁ hu₁ ht₁
    refine ⟨by rw [run_cons, hconfig, config_step], u', hu', ht', fun hexact hfits => ?_⟩
    exact hexact' (hexact₁ hexact (hfits e (List.mem_cons_self ..)))
      fun e' he' => hfits e' (List.mem_cons_of_mem _ he')

end Runs

/-! ## Puts -/

/-- What a put does, from a cache whose usage is `u`, under the limit `maxSize`: it never fails
to evict; when its offset and its bytes pass their checks, it first evicts the `n` least recently
used blocks, the fewest that bring the size within the limit, and removes their files, but for
those whose removal fails, which stay as they were; then, unless its write fails, it records the
block at the size `write_block` reported, which leaves the size at most the limit plus that
block's size. -/
def PutEvictsLru (c : DiskDataCache) (u : UsageInfo DiskBlockKey) (maxSize : ℕ) (cacheKey : ObjectId)
    (blockIdx : BlockIndex) (blockOffset : UInt64) (bytes : ChecksummedBytes) (fs : PutFs) : Prop :=
  let put := c.putBlock sha256 crc cacheKey blockIdx blockOffset bytes fs
  let key := DiskBlockKey.new sha256 cacheKey blockIdx
  put.1 ≠ .error .evictionFailure ∧
    ∀ block, blockOffset = blockIdx * c.config.blockSize →
      DiskBlock.new crc cacheKey blockIdx blockOffset bytes = .ok block →
      ∃ n, u.FewestLru maxSize n ∧
        (∀ k ∈ lruKeys u n, k ≠ key → put.2.files k = if fs.removeFails k then c.files k else none) ∧
        if fs.writeFails then put.1 = .error .ioFailure ∧ put.2.usage = some (u.evictFront n)
        else put.1 = .ok () ∧ put.2.usage = some ((u.evictFront n).add key (writeBlock block).2) ∧
          ((u.evictFront n).add key (writeBlock block).2).size ≤ maxSize + (writeBlock block).2

section Puts

variable {sha256 crc} {c : DiskDataCache} {maxSize : ℕ}

theorem putEvictsLru_of_le_total (hlimit : c.config.limit = .totalSize maxSize)
    {u : UsageInfo DiskBlockKey} (hu : c.usage = some u) (hsize : u.size ≤ u.total)
    (cacheKey : ObjectId) (blockIdx : BlockIndex) (blockOffset : UInt64) (bytes : ChecksummedBytes)
    (fs : PutFs) : PutEvictsLru sha256 crc c u maxSize cacheKey blockIdx blockOffset bytes fs := by
  have hev := DiskDataCache.evictIfNeeded_totalSize hlimit hu hsize fs
  have hfewest := UsageInfo.evictCount_fewest maxSize hsize
  refine ⟨?_, fun block hoff hnew => ⟨_, hfewest, ?_⟩⟩
  · -- the put fails its checks, or its write, or succeeds: eviction itself never fails
    by_cases hoff : blockOffset = blockIdx * c.config.blockSize
    · cases hnew : DiskBlock.new crc cacheKey blockIdx blockOffset bytes with
      | error err => simp [DiskDataCache.putBlock_of_new_error hoff hnew]
      | ok block =>
        rw [DiskDataCache.putBlock_of_new hoff hnew hev rfl]
        split_ifs <;> simp
    · simp [DiskDataCache.putBlock_of_offset hoff]
  · rw [DiskDataCache.putBlock_of_new hoff hnew hev rfl]
    have hremoved := fun k (hk : k ∈ lruKeys u (UsageInfo.evictCount maxSize u.size u.entries.entries)) =>
      removeFiles_of_mem c.files fs.removeFails hk
    cases hwrite : fs.writeFails with
    | true => exact ⟨fun k hk _ => hremoved k hk, rfl, rfl⟩
    | false =>
      refine ⟨fun k hk hkey => ?_, rfl, rfl, ?_⟩
      · simpa [Function.update, hkey] using hremoved k hk
      · have := UsageInfo.size_add_le (u.evictFront (UsageInfo.evictCount maxSize u.size u.entries.entries))
          (DiskBlockKey.new sha256 cacheKey blockIdx) (writeBlock block).2
        have := hfewest.1
        simp only [UsageInfo.evictFront] at *
        omega

end Puts

/-- **Usage accounting and LRU eviction of the disk cache.** For a cache with a total size limit,
after any run of `get_block` and `put_block` calls: the usage's size is at most the sum of the
recorded sizes, and equal to it when every put leaves room below `usize::MAX` for the limit and
its block; each recorded size is what `write_block` reported at the block's last successful put;
the blocks are in order of last use, least recent first, a use being a successful put or a get
hit; and the next put, whatever it is and whatever the file system answers, never fails to
evict, evicts the fewest least recently used blocks that bring the size within the limit,
removes their files but for those whose removal fails, which stay, and leaves the size at most
the limit plus the block it writes. -/
theorem disk_cache_usage_lru (maxSize : ℕ) (blockSize : UInt64) (events : List CacheEvent) :
    ∃ u, (run (CacheRun.step sha256 crc) (CacheRun.new ⟨blockSize, .totalSize maxSize⟩) events).cache.usage =
        some u ∧
      Tracks (run (CacheRun.step sha256 crc) (CacheRun.new ⟨blockSize, .totalSize maxSize⟩) events).history u ∧
      ((∀ e ∈ events, PutFits maxSize e) → u.size = u.total) ∧
      ∀ cacheKey blockIdx blockOffset bytes fs,
        PutEvictsLru sha256 crc
          (run (CacheRun.step sha256 crc) (CacheRun.new ⟨blockSize, .totalSize maxSize⟩) events).cache
          u maxSize cacheKey blockIdx blockOffset bytes fs := by
  obtain ⟨hconfig, u, hu, ht, hexact⟩ :=
    @Tracks.run sha256 crc maxSize (CacheRun.new ⟨blockSize, .totalSize maxSize⟩) rfl _ rfl Tracks.init events
  refine ⟨u, hu, ht, hexact rfl, putEvictsLru_of_le_total ?_ hu ht.size_le⟩
  rw [hconfig]
  rfl

theorem disk_cache_usage_lru_two_puts :
    ∃ u, (run (CacheRun.step id byteSum) (CacheRun.new ⟨4, .totalSize 100⟩)
        [.putBlock ⟨"a", "e"⟩ 0 0 (ChecksummedBytes.new byteSum [1, 2, 3]) ⟨fun _ => none, fun _ => true, false⟩,
          .getBlock ⟨"a", "e"⟩ 0 0,
          .putBlock ⟨"a", "e"⟩ 1 4 (ChecksummedBytes.new byteSum [4, 5]) ⟨fun _ => none, fun _ => true, false⟩]).cache.usage =
        some u ∧
      u.size = u.total := by
  obtain ⟨u, hu, -, hexact, -⟩ := disk_cache_usage_lru id byteSum 100 4
    [.putBlock ⟨"a", "e"⟩ 0 0 (ChecksummedBytes.new byteSum [1, 2, 3]) ⟨fun _ => none, fun _ => true, false⟩,
      .getBlock ⟨"a", "e"⟩ 0 0,
      .putBlock ⟨"a", "e"⟩ 1 4 (ChecksummedBytes.new byteSum [4, 5]) ⟨fun _ => none, fun _ => true, false⟩]
  exact ⟨u, hu, hexact (by decide)⟩

/-- **Exact usage accounting and LRU eviction, while the sizes fit a `usize`.** For a cache with a
total size limit, after any run of `get_block` and `put_block` calls in which every put leaves
room below `usize::MAX` for the limit and its block: the usage's size is the sum of the recorded
sizes, each recorded size is what `write_block` reported at the block's last successful put, and
the blocks are in order of last use, a use being a successful put or a get hit; and the next put
never fails to evict, evicts the fewest least recently used blocks that bring the size within the
limit, and leaves the size at most the limit plus the block it writes. -/
theorem disk_cache_usage_exact (maxSize : ℕ) (blockSize : UInt64) (events : List CacheEvent)
    (hfit : ∀ e ∈ events, PutFits maxSize e) :
    ∃ u, (run (CacheRun.step sha256 crc) (CacheRun.new ⟨blockSize, .totalSize maxSize⟩) events).cache.usage =
        some u ∧
      u.size = u.total ∧
      Tracks (run (CacheRun.step sha256 crc) (CacheRun.new ⟨blockSize, .totalSize maxSize⟩) events).history u ∧
      ∀ cacheKey blockIdx blockOffset bytes fs,
        PutEvictsLru sha256 crc
          (run (CacheRun.step sha256 crc) (CacheRun.new ⟨blockSize, .totalSize maxSize⟩) events).cache
          u maxSize cacheKey blockIdx blockOffset bytes fs := by
  obtain ⟨hconfig, u, hu, ht, hexact⟩ :=
    @Tracks.run sha256 crc maxSize (CacheRun.new ⟨blockSize, .totalSize maxSize⟩) rfl _ rfl Tracks.init events
  refine ⟨u, hu, hexact rfl hfit, ht, putEvictsLru_of_le_total ?_ hu ht.size_le⟩
  rw [hconfig]
  rfl

theorem disk_cache_usage_exact_two_puts :
    (∀ e ∈ [.putBlock ⟨"a", "e"⟩ 0 0 (ChecksummedBytes.new byteSum [1, 2, 3]) ⟨fun _ => none, fun _ => true, false⟩,
        .getBlock ⟨"a", "e"⟩ 0 0,
        .putBlock ⟨"a", "e"⟩ 1 4 (ChecksummedBytes.new byteSum [4, 5]) ⟨fun _ => none, fun _ => true, false⟩],
        PutFits 100 e) ∧
      ∃ u, (run (CacheRun.step id byteSum) (CacheRun.new ⟨4, .totalSize 100⟩)
          [.putBlock ⟨"a", "e"⟩ 0 0 (ChecksummedBytes.new byteSum [1, 2, 3]) ⟨fun _ => none, fun _ => true, false⟩,
            .getBlock ⟨"a", "e"⟩ 0 0,
            .putBlock ⟨"a", "e"⟩ 1 4 (ChecksummedBytes.new byteSum [4, 5]) ⟨fun _ => none, fun _ => true, false⟩]).cache.usage =
          some u ∧
        u.size = u.total := by
  refine ⟨by decide, ?_⟩
  obtain ⟨u, hu, hexact, -⟩ := disk_cache_usage_exact id byteSum 100 4
    [.putBlock ⟨"a", "e"⟩ 0 0 (ChecksummedBytes.new byteSum [1, 2, 3]) ⟨fun _ => none, fun _ => true, false⟩,
      .getBlock ⟨"a", "e"⟩ 0 0,
      .putBlock ⟨"a", "e"⟩ 1 4 (ChecksummedBytes.new byteSum [4, 5]) ⟨fun _ => none, fun _ => true, false⟩]
    (by decide)
  exact ⟨u, hu, hexact⟩

/-- **The running size saturates when the limit leaves no room.** Under the limit `usize::MAX`,
two puts of blocks of `2 ^ 63 - 1` bytes, the most a buffer holds, in blocks of `2 ^ 63`: the
second finds the size within the limit and evicts nothing, and the saturating addition stops the
size at `usize::MAX`, below the sum of the two sizes recorded. -/
theorem disk_cache_usage_saturates :
    ∃ u, (run (CacheRun.step id byteSum) (CacheRun.new ⟨9223372036854775808, .totalSize usizeMax⟩)
        [.putBlock ⟨"a", "e"⟩ 0 0 (ChecksummedBytes.new byteSum (List.replicate (2 ^ 63 - 1) 0))
            ⟨fun _ => none, fun _ => false, false⟩,
          .putBlock ⟨"a", "e"⟩ 1 9223372036854775808
            (ChecksummedBytes.new byteSum (List.replicate (2 ^ 63 - 1) 0))
            ⟨fun _ => none, fun _ => false, false⟩]).cache.usage = some u ∧
      u.size = usizeMax ∧ usizeMax < u.total := by
  -- the bytes stay a variable, so that nothing computes with the list: only its length matters
  suffices h : ∀ data : List UInt8, data.length = 2 ^ 63 - 1 →
      ∃ u, (run (CacheRun.step id byteSum) (CacheRun.new ⟨9223372036854775808, .totalSize usizeMax⟩)
        [.putBlock ⟨"a", "e"⟩ 0 0 (ChecksummedBytes.new byteSum data) ⟨fun _ => none, fun _ => false, false⟩,
          .putBlock ⟨"a", "e"⟩ 1 9223372036854775808 (ChecksummedBytes.new byteSum data)
            ⟨fun _ => none, fun _ => false, false⟩]).cache.usage = some u ∧
      u.size = usizeMax ∧ usizeMax < u.total from h _ (List.length_replicate ..)
  intro data hdata
  have hsound : (ChecksummedBytes.new byteSum data).Sound byteSum := rfl
  have hlen : (ChecksummedBytes.new byteSum data).len = data.length := by
    simp [ChecksummedBytes.len, ChecksummedBytes.new, ChecksummedBytes.newFromInnerData]
  obtain ⟨b₀, hnew₀⟩ : ∃ b, DiskBlock.new byteSum ⟨"a", "e"⟩ 0 0 (ChecksummedBytes.new byteSum data) = .ok b :=
    ⟨_, new_eq_ok byteSum hsound _ _ _⟩
  obtain ⟨b₁, hnew₁⟩ : ∃ b, DiskBlock.new byteSum ⟨"a", "e"⟩ 1 9223372036854775808
      (ChecksummedBytes.new byteSum data) = .ok b :=
    ⟨_, new_eq_ok byteSum hsound _ _ _⟩
  -- the first put records its block on the empty usage
  have h₁ := @usage_step_putBlock_of_le id byteSum (CacheRun.new ⟨9223372036854775808, .totalSize usizeMax⟩)
    _ _ rfl rfl le_rfl (Nat.zero_le _) _ _ _ _ UInt64.zero_mul.symm _ hnew₀
    ⟨fun _ => none, fun _ => false, false⟩ rfl
  -- the second finds the size within the limit, which is `usize::MAX`, and records its block too
  have hconfig₁ := @config_step id byteSum (CacheRun.new ⟨9223372036854775808, .totalSize usizeMax⟩)
    (.putBlock ⟨"a", "e"⟩ 0 0 (ChecksummedBytes.new byteSum data) ⟨fun _ => none, fun _ => false, false⟩)
  have hoff₁ : (9223372036854775808 : UInt64) = 1 * (CacheRun.step id byteSum
      (CacheRun.new ⟨9223372036854775808, .totalSize usizeMax⟩) (.putBlock ⟨"a", "e"⟩ 0 0
        (ChecksummedBytes.new byteSum data) ⟨fun _ => none, fun _ => false, false⟩)).cache.config.blockSize := by
    rw [hconfig₁]
    exact (one_mul _).symm
  have h₂ := @usage_step_putBlock_of_le id byteSum _ _ _ (congrArg DiskDataCacheConfig.limit hconfig₁) h₁
    (UsageInfo.size_le_total_add le_rfl _ _) (UsageInfo.size_add_le_usizeMax _ _ _) _ _ _ _ hoff₁ _ hnew₁
    ⟨fun _ => none, fun _ => false, false⟩ rfl
  refine ⟨_, h₂, ?_⟩
  -- each block is written as a header of at least 48 bytes and its `2 ^ 63 - 1` bytes
  have hw₀ := writeBlock_new hnew₀
  have hw₁ := writeBlock_new hnew₁
  rw [hlen, hdata] at hw₀ hw₁
  dsimp only at hw₀ hw₁
  have hhead : 48 ≤ encodedLength "e" "a" := Nat.le_add_right_of_le (Nat.le_add_right _ _)
  generalize (writeBlock b₀).2 = w₀ at hw₀ ⊢
  generalize (writeBlock b₁).2 = w₁ at hw₁ ⊢
  -- the second block is not in the usage the first put leaves
  have hne : DiskBlockKey.new id ⟨"a", "e"⟩ 1 ≠ DiskBlockKey.new id ⟨"a", "e"⟩ 0 := fun h =>
    absurd (congrArg DiskBlockKey.blockIndex h) (by decide)
  have hprev₀ : (UsageInfo.new : UsageInfo DiskBlockKey).previousSize (DiskBlockKey.new id ⟨"a", "e"⟩ 0) = 0 :=
    rfl
  have hprev₁ : (UsageInfo.new.add (DiskBlockKey.new id ⟨"a", "e"⟩ 0) w₀).previousSize
      (DiskBlockKey.new id ⟨"a", "e"⟩ 1) = 0 := by
    rw [UsageInfo.previousSize, LinkedHashMap.get?_eq_none_iff.2 (by simp [UsageInfo.new, LinkedHashMap.new, hne])]
    rfl
  have ht₀ := UsageInfo.total_add (UsageInfo.new : UsageInfo DiskBlockKey) (DiskBlockKey.new id ⟨"a", "e"⟩ 0) w₀
  have ht₁ := UsageInfo.total_add (UsageInfo.new.add (DiskBlockKey.new id ⟨"a", "e"⟩ 0) w₀)
    (DiskBlockKey.new id ⟨"a", "e"⟩ 1) w₁
  rw [hprev₀, UsageInfo.total_new] at ht₀
  rw [hprev₁] at ht₁
  rw [UsageInfo.size_add, hprev₁, UsageInfo.size_add, hprev₀, UsageInfo.size_new]
  simp only [saturatingAdd, usizeMax] at ht₁ ⊢
  omega

end MountpointS3.DataCache
