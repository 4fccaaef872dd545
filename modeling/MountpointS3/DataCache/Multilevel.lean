import MountpointS3.DataCache.Coherence
import MountpointS3.DataCache.SharedBucket

/-!
# The multilevel data cache

`multilevel_cache.rs`: a cache that keeps blocks on the local disk and in an S3 Express bucket
shared with other Mountpoint instances. `get_block` asks the disk first, and on a miss or an error
the bucket; a block found in the bucket is returned, and a put of it to the disk is spawned, which
runs at some later point, or never. `put_block` puts to the disk, whatever that gives, and then to
the bucket. A run interleaves the calls of one such cache, its spawned disk puts in any order, and
the calls of other instances' caches on the bucket; any request may fail.

* `ServedBy`: what the cache is for: the bytes served for a block are those that some `put_block`
  of that block was given, and are unsound only if those were;
* `Serving`: the invariant of a run, for the disk's history, the bucket's ghost and the spawned
  puts; `Serving.step`, `Serving.run`;
* `multilevel_cache_serves_puts`: every hit, from the disk or from the bucket, is served by a
  put of its block.
-/

namespace MountpointS3.DataCache

open Foundations Checksums Client

/-- `MultilevelDataCache`: the configurations of its disk and S3 Express caches, whose block sizes
`MultilevelDataCache::new` asserts equal. -/
structure MultilevelDataCache where
  diskConfig : DiskDataCacheConfig
  expressConfig : Express.ExpressDataCacheConfig
  blockSize_eq : diskConfig.blockSize = expressConfig.blockSize

/-- A disk put spawned by `get_block`. -/
structure SpawnedPut where
  cacheKey : ObjectId
  blockIdx : BlockIndex
  blockOffset : UInt64
  bytes : ChecksummedBytes

/-- A call of a run: of the multilevel cache, of the `i`-th spawned disk put not run yet, or of
another instance's cache on the shared bucket. -/
inductive MultilevelEvent
  | getBlock (cacheKey : ObjectId) (blockIdx : BlockIndex) (blockOffset : UInt64) (objectSize : ℕ)
      (expressFails : Bool)
  | putBlock (cacheKey : ObjectId) (blockIdx : BlockIndex) (blockOffset : UInt64)
      (bytes : ChecksummedBytes) (objectSize : ℕ) (fs : PutFs) (expressFails : Bool)
  | runSpawned (i : ℕ) (fs : PutFs)
  | express (e : Express.ExpressEvent)

/-- The disk cache with its history, the shared bucket with its ghost, and the spawned disk puts
not run yet. -/
structure MultilevelRun where
  disk : CacheRun
  shared : Express.SharedRun
  spawned : List SpawnedPut

/-- The `put_block` calls of an event: of the multilevel cache, under its S3 Express
configuration, or of another instance's cache. -/
def MultilevelEvent.blockPuts (expressConfig : Express.ExpressDataCacheConfig) :
    MultilevelEvent → List Express.BlockPut
  | .putBlock cacheKey blockIdx blockOffset bytes _ _ _ =>
    [⟨expressConfig, cacheKey, blockIdx, blockOffset, bytes⟩]
  | .express (.putBlock config cacheKey blockIdx blockOffset bytes _ _) =>
    [⟨config, cacheKey, blockIdx, blockOffset, bytes⟩]
  | _ => []

/-- A put whose object key, ETag and bytes have lengths that a `usize` holds. -/
def Express.BlockPut.Representable (p : Express.BlockPut) : Prop :=
  PutRepresentable p.cacheKey p.bytes

/-- The puts of an event are representable. -/
def MultilevelEvent.Representable : MultilevelEvent → Prop
  | .putBlock cacheKey _ _ bytes _ _ _ => PutRepresentable cacheKey bytes
  | .express (.putBlock _ cacheKey _ _ bytes _ _) => PutRepresentable cacheKey bytes
  | _ => True

instance : DecidablePred MultilevelEvent.Representable := fun e =>
  match e with
  | .putBlock cacheKey _ _ bytes _ _ _ => inferInstanceAs (Decidable (PutRepresentable cacheKey bytes))
  | .express (.putBlock _ cacheKey _ _ bytes _ _) => inferInstanceAs (Decidable (PutRepresentable cacheKey bytes))
  | .getBlock .. => isTrue trivial
  | .runSpawned .. => isTrue trivial
  | .express (.getBlock ..) => isTrue trivial
  | .express (.verifyCacheValid ..) => isTrue trivial

/-- The bytes `bytes` served for the block `blockIdx` at `blockOffset` of `cacheKey` are those that
some put of that block, from a cache of the source bucket `sourceBucketName`, was given; they are
unsound only if those were. -/
def ServedBy (crc : Crc) (puts : List Express.BlockPut) (sourceBucketName : String)
    (cacheKey : ObjectId) (blockIdx : BlockIndex) (blockOffset : UInt64) (bytes : ChecksummedBytes) :
    Prop :=
  ∃ q ∈ puts, q.config.sourceBucketName = sourceBucketName ∧ q.cacheKey = cacheKey ∧
    q.blockIdx = blockIdx ∧ q.blockOffset = blockOffset ∧ bytes.bufferSlice = q.bytes.bufferSlice ∧
    (q.bytes.Sound crc → bytes.Sound crc)

section

variable (sha256 : List UInt8 → List UInt8) (crc : Crc) (cache : MultilevelDataCache)

/-- `MultilevelDataCache::get_block`, on the disk cache and the bucket before the call: its result,
and the disk put it spawns. -/
def MultilevelDataCache.getBlock (self : MultilevelDataCache) (disk : DiskDataCache) (client : MockClient)
    (cacheKey : ObjectId) (blockIdx : BlockIndex) (blockOffset : UInt64) (objectSize : ℕ)
    (expressFails : Bool) :
    Except DataCacheError (Option ChecksummedBytes) × Option SpawnedPut :=
  match (disk.getBlock sha256 crc cacheKey blockIdx blockOffset).1 with
  | .ok (some data) => (.ok (some data), none)
  | _ =>
    match (Express.ExpressDataCache.new sha256 self.expressConfig).getBlock sha256 crc client
        expressFails cacheKey blockIdx blockOffset objectSize with
    | .error e => (.error e, none)
    | .ok none => (.ok none, none)
    | .ok (some data) => (.ok (some data), some ⟨cacheKey, blockIdx, blockOffset, data⟩)

/-- `MultilevelDataCache::put_block`: the disk put, whose error is only logged, then the S3 Express
put, whose result it returns; with the disk cache and the bucket after them. -/
def MultilevelDataCache.putBlock (self : MultilevelDataCache) (disk : DiskDataCache) (client : MockClient)
    (cacheKey : ObjectId) (blockIdx : BlockIndex) (blockOffset : UInt64) (bytes : ChecksummedBytes)
    (objectSize : ℕ) (fs : PutFs) (expressFails : Bool) :
    Except DataCacheError Unit × DiskDataCache × MockClient :=
  let disk := (disk.putBlock sha256 crc cacheKey blockIdx blockOffset bytes fs).2
  let express := (Express.ExpressDataCache.new sha256 self.expressConfig).putBlock sha256 crc client
    expressFails cacheKey blockIdx blockOffset bytes objectSize
  (express.1, disk, express.2)

/-- A run with nothing cached, on an empty bucket. -/
def MultilevelRun.new (bucket : String) (partSize : ℕ) (hpart : 0 < partSize) : MultilevelRun :=
  ⟨CacheRun.new cache.diskConfig, Express.SharedRun.new bucket partSize hpart, []⟩

/-- One call of a run. `put_block` puts to the disk, whatever that gives, then to the bucket. -/
def MultilevelRun.step (r : MultilevelRun) : MultilevelEvent → MultilevelRun
  | .getBlock cacheKey blockIdx blockOffset objectSize expressFails =>
    let disk := r.disk.step sha256 crc (.getBlock cacheKey blockIdx blockOffset)
    match (cache.getBlock sha256 crc r.disk.cache r.shared.client cacheKey blockIdx blockOffset
        objectSize expressFails).2 with
    | none => { r with disk }
    | some put => { r with disk, spawned := r.spawned ++ [put] }
  | .putBlock cacheKey blockIdx blockOffset bytes objectSize fs expressFails =>
    { r with
      disk := r.disk.step sha256 crc (.putBlock cacheKey blockIdx blockOffset bytes fs)
      shared := r.shared.step sha256 crc
        (.putBlock cache.expressConfig cacheKey blockIdx blockOffset bytes objectSize expressFails) }
  | .runSpawned i fs =>
    match r.spawned[i]? with
    | none => r
    | some put =>
      { r with
        disk := r.disk.step sha256 crc
          (.putBlock put.cacheKey put.blockIdx put.blockOffset put.bytes fs)
        spawned := r.spawned.eraseIdx i }
  | .express e => { r with shared := r.shared.step sha256 crc e }

/-- The invariant of a run whose puts so far are `puts`: the disk's block files are the last puts
of their keys, and each of those was given the bytes of a put of its block; so was each object's
put in the bucket, and each spawned disk put. -/
structure Serving (puts : List Express.BlockPut) (r : MultilevelRun) : Prop where
  config : r.disk.cache.config = cache.diskConfig
  disk : Coherent sha256 crc r.disk.cache r.disk.history
  shared : Express.Coherent crc r.shared
  diskPut : ∀ k put, r.disk.history.lastPut k = some put →
    ServedBy crc puts cache.expressConfig.sourceBucketName put.1 k.blockIndex
      (k.blockIndex * cache.diskConfig.blockSize) put.2
  sharedPut : ∀ key p, r.shared.lastPut key = some p → p ∈ puts
  spawnedPut : ∀ s ∈ r.spawned, s.blockOffset = s.blockIdx * cache.diskConfig.blockSize ∧
    ServedBy crc puts cache.expressConfig.sourceBucketName s.cacheKey s.blockIdx s.blockOffset s.bytes
  representable : ∀ q ∈ puts, q.Representable

end

variable {sha256 : List UInt8 → List UInt8} {crc : Crc} {cache : MultilevelDataCache}

/-! ## The served-by relation -/

theorem ServedBy.mono {puts puts' : List Express.BlockPut} {sourceBucketName : String}
    {cacheKey : ObjectId} {blockIdx : BlockIndex} {blockOffset : UInt64} {bytes : ChecksummedBytes}
    (h : ServedBy crc puts sourceBucketName cacheKey blockIdx blockOffset bytes) (hsub : puts ⊆ puts') :
    ServedBy crc puts' sourceBucketName cacheKey blockIdx blockOffset bytes := by
  obtain ⟨q, hq, hrest⟩ := h
  exact ⟨q, hsub hq, hrest⟩

/-- Bytes with the same contents as served ones, sound whenever those are, are served too. -/
theorem ServedBy.of_bufferSlice {puts : List Express.BlockPut} {sourceBucketName : String}
    {cacheKey : ObjectId} {blockIdx : BlockIndex} {blockOffset : UInt64} {bytes bytes' : ChecksummedBytes}
    (h : ServedBy crc puts sourceBucketName cacheKey blockIdx blockOffset bytes)
    (hslice : bytes'.bufferSlice = bytes.bufferSlice) (hsound : bytes.Sound crc → bytes'.Sound crc) :
    ServedBy crc puts sourceBucketName cacheKey blockIdx blockOffset bytes' := by
  obtain ⟨q, hq, hsource, hkey, hidx, hoff, hslice', hsound'⟩ := h
  exact ⟨q, hq, hsource, hkey, hidx, hoff, hslice.trans hslice', hsound ∘ hsound'⟩

/-- A put serves its own bytes. -/
theorem ServedBy.of_mem {puts : List Express.BlockPut} {q : Express.BlockPut} (hq : q ∈ puts) :
    ServedBy crc puts q.config.sourceBucketName q.cacheKey q.blockIdx q.blockOffset q.bytes :=
  ⟨q, hq, rfl, rfl, rfl, rfl, rfl, id⟩

/-- The bytes served are as long as those of a representable put. -/
theorem ServedBy.representable {puts : List Express.BlockPut} {sourceBucketName : String}
    {cacheKey : ObjectId} {blockIdx : BlockIndex} {blockOffset : UInt64} {bytes : ChecksummedBytes}
    (h : ServedBy crc puts sourceBucketName cacheKey blockIdx blockOffset bytes)
    (hrep : ∀ q ∈ puts, q.Representable) (blockOffset' : UInt64) (fs : PutFs) :
    (CacheEvent.putBlock cacheKey blockIdx blockOffset' bytes fs).Representable := by
  obtain ⟨q, hq, -, rfl, -, -, hslice, -⟩ := h
  obtain ⟨hkey, hetag, hlen⟩ := hrep q hq
  refine ⟨hkey, hetag, ?_⟩
  rw [← ChecksummedBytes.length_bufferSlice, hslice, ChecksummedBytes.length_bufferSlice]
  exact hlen

/-! ## The last puts of the disk's history -/

theorem lastPut_step_getBlock (r : CacheRun) (cacheKey : ObjectId) (blockIdx : BlockIndex)
    (blockOffset : UInt64) :
    (r.step sha256 crc (.getBlock cacheKey blockIdx blockOffset)).history.lastPut = r.history.lastPut := by
  simp only [CacheRun.step]
  split <;> rfl

/-- A disk put leaves the last puts as they were, or, at the block's offset, makes itself the last
put of its key. -/
theorem lastPut_step_putBlock (r : CacheRun) (cacheKey : ObjectId) (blockIdx : BlockIndex)
    (blockOffset : UInt64) (bytes : ChecksummedBytes) (fs : PutFs) :
    (r.step sha256 crc (.putBlock cacheKey blockIdx blockOffset bytes fs)).history.lastPut =
        r.history.lastPut ∨
      (blockOffset = blockIdx * r.cache.config.blockSize ∧
        (r.step sha256 crc (.putBlock cacheKey blockIdx blockOffset bytes fs)).history.lastPut =
          Function.update r.history.lastPut (DiskBlockKey.new sha256 cacheKey blockIdx)
            (some (cacheKey, bytes))) := by
  cases hres : (r.cache.putBlock sha256 crc cacheKey blockIdx blockOffset bytes fs).1 with
  | error e =>
    left
    rw [history_step_putBlock_error hres]
    rfl
  | ok u =>
    right
    rcases @DiskDataCache.putBlock_cases sha256 crc r.cache cacheKey blockIdx blockOffset bytes
      fs with ⟨hne, -⟩ | ⟨-, block, hoff, -⟩
    · exact absurd hres hne
    · refine ⟨hoff, ?_⟩
      rw [history_step_putBlock_ok hres]
      rfl

/-- A disk put of served bytes keeps every last put of the history served. -/
theorem diskPut_step_putBlock {puts : List Express.BlockPut} {r : CacheRun}
    (hconfig : r.cache.config = cache.diskConfig)
    (hput : ∀ k put, r.history.lastPut k = some put →
      ServedBy crc puts cache.expressConfig.sourceBucketName put.1 k.blockIndex
        (k.blockIndex * cache.diskConfig.blockSize) put.2)
    {cacheKey : ObjectId} {blockIdx : BlockIndex} {blockOffset : UInt64} {bytes : ChecksummedBytes}
    (hserved : ServedBy crc puts cache.expressConfig.sourceBucketName cacheKey blockIdx blockOffset bytes)
    (fs : PutFs) :
    ∀ k put, (r.step sha256 crc (.putBlock cacheKey blockIdx blockOffset bytes fs)).history.lastPut k =
        some put →
      ServedBy crc puts cache.expressConfig.sourceBucketName put.1 k.blockIndex
        (k.blockIndex * cache.diskConfig.blockSize) put.2 := by
  intro k put hk
  rcases lastPut_step_putBlock r cacheKey blockIdx blockOffset bytes fs with h | ⟨hoff, h⟩
  · rw [h] at hk
    exact hput k put hk
  · rw [h] at hk
    by_cases hkey : k = DiskBlockKey.new sha256 cacheKey blockIdx
    · -- the put's own key: its block and offset are those it was given
      subst hkey
      rw [Function.update_self, Option.some.injEq] at hk
      subst hk
      rw [hconfig] at hoff
      show ServedBy crc puts _ cacheKey blockIdx (blockIdx * cache.diskConfig.blockSize) bytes
      rw [← hoff]
      exact hserved
    · rw [Function.update_of_ne hkey] at hk
      exact hput k put hk

/-! ## What `get_block` returns and spawns -/

theorem MultilevelDataCache.getBlock_fst_eq_some {disk : DiskDataCache} {client : MockClient}
    {cacheKey : ObjectId} {blockIdx : BlockIndex} {blockOffset : UInt64} {objectSize : ℕ}
    {expressFails : Bool} {hit : ChecksummedBytes}
    (h : (cache.getBlock sha256 crc disk client cacheKey blockIdx blockOffset objectSize expressFails).1 =
      .ok (some hit)) :
    (disk.getBlock sha256 crc cacheKey blockIdx blockOffset).1 = .ok (some hit) ∨
      (Express.ExpressDataCache.new sha256 cache.expressConfig).getBlock sha256 crc client expressFails
        cacheKey blockIdx blockOffset objectSize = .ok (some hit) := by
  unfold getBlock at h
  split at h
  · rename_i data hdisk
    cases h
    exact .inl hdisk
  · split at h
    · cases h
    · cases h
    · rename_i data hexpress
      cases h
      exact .inr hexpress

theorem MultilevelDataCache.getBlock_snd_eq_some {disk : DiskDataCache} {client : MockClient}
    {cacheKey : ObjectId} {blockIdx : BlockIndex} {blockOffset : UInt64} {objectSize : ℕ}
    {expressFails : Bool} {put : SpawnedPut}
    (h : (cache.getBlock sha256 crc disk client cacheKey blockIdx blockOffset objectSize expressFails).2 =
      some put) :
    put = ⟨cacheKey, blockIdx, blockOffset, put.bytes⟩ ∧
      (Express.ExpressDataCache.new sha256 cache.expressConfig).getBlock sha256 crc client expressFails
        cacheKey blockIdx blockOffset objectSize = .ok (some put.bytes) := by
  unfold getBlock at h
  split at h
  · cases h
  · split at h
    · cases h
    · cases h
    · rename_i data hexpress
      cases h
      exact ⟨rfl, hexpress⟩

/-- A run's `put_block` leaves the disk cache and the bucket as
`MultilevelDataCache::put_block` does. -/
theorem MultilevelRun.step_putBlock (r : MultilevelRun) (cacheKey : ObjectId) (blockIdx : BlockIndex)
    (blockOffset : UInt64) (bytes : ChecksummedBytes) (objectSize : ℕ) (fs : PutFs) (expressFails : Bool) :
    ((r.step sha256 crc cache
        (.putBlock cacheKey blockIdx blockOffset bytes objectSize fs expressFails)).disk.cache,
      (r.step sha256 crc cache
        (.putBlock cacheKey blockIdx blockOffset bytes objectSize fs expressFails)).shared.client) =
      (cache.putBlock sha256 crc r.disk.cache r.shared.client cacheKey blockIdx blockOffset bytes
        objectSize fs expressFails).2 := by
  simp only [MultilevelRun.step, MultilevelDataCache.putBlock, cache_step_putBlock,
    Express.client_step_putBlock]

/-- A block the bucket serves is served by a put of the run, at its block's offset. -/
theorem served_of_express_hit {puts : List Express.BlockPut} {shared : Express.SharedRun}
    (hshared : Express.Coherent crc shared) (hsharedPut : ∀ key p, shared.lastPut key = some p → p ∈ puts)
    {cacheKey : ObjectId} {blockIdx : BlockIndex} {blockOffset : UInt64} {objectSize : ℕ}
    {expressFails : Bool} {hit : ChecksummedBytes}
    (hhit : (Express.ExpressDataCache.new sha256 cache.expressConfig).getBlock sha256 crc shared.client
      expressFails cacheKey blockIdx blockOffset objectSize = .ok (some hit)) :
    blockOffset = blockIdx * cache.diskConfig.blockSize ∧
      ServedBy crc puts cache.expressConfig.sourceBucketName cacheKey blockIdx blockOffset hit := by
  obtain ⟨-, hoff, -⟩ := Express.ExpressDataCache.readBlock_eq_some hhit
  obtain ⟨p, hp, hsource, hkey, hidx, hoffset, hsound, hslice⟩ := hshared.hit hhit
  refine ⟨by rw [cache.blockSize_eq]; exact hoff, p, hsharedPut _ p hp, hsource, hkey, hidx, hoffset, hslice,
    fun _ => hsound⟩

/-! ## The invariant -/

theorem Serving.init (bucket : String) (partSize : ℕ) (hpart : 0 < partSize) :
    Serving sha256 crc cache [] (MultilevelRun.new cache bucket partSize hpart) where
  config := rfl
  disk := Coherent.init cache.diskConfig
  shared := Express.Coherent.init bucket partSize hpart
  diskPut _ _ h := nomatch h
  sharedPut _ _ h := nomatch h
  spawnedPut _ h := nomatch h
  representable _ h := nomatch h

section Step

variable {puts : List Express.BlockPut} {r : MultilevelRun}

theorem Serving.step_getBlock (hr : Serving sha256 crc cache puts r) (cacheKey : ObjectId)
    (blockIdx : BlockIndex) (blockOffset : UInt64) (objectSize : ℕ) (expressFails : Bool) :
    Serving sha256 crc cache puts
      (r.step sha256 crc cache (.getBlock cacheKey blockIdx blockOffset objectSize expressFails)) := by
  have hdisk : Serving sha256 crc cache puts
      { r with disk := r.disk.step sha256 crc (.getBlock cacheKey blockIdx blockOffset) } :=
    { hr with
      config := by rw [config_step, hr.config]
      disk := hr.disk.step trivial
      diskPut := by
        simp only [lastPut_step_getBlock]
        exact hr.diskPut }
  simp only [MultilevelRun.step]
  split
  · exact hdisk
  · rename_i put hput
    -- the spawned put is of the block the bucket served
    obtain ⟨hput_eq, hexpress⟩ := MultilevelDataCache.getBlock_snd_eq_some hput
    obtain ⟨hoff, hserved⟩ := served_of_express_hit hr.shared hr.sharedPut hexpress
    refine { hdisk with spawnedPut := fun s hs => ?_ }
    rcases List.mem_append.1 hs with hs | hs
    · exact hr.spawnedPut s hs
    · rw [List.mem_singleton.1 hs, hput_eq]
      exact ⟨hoff, hserved⟩

theorem Serving.step_putBlock (hr : Serving sha256 crc cache puts r) (cacheKey : ObjectId)
    (blockIdx : BlockIndex) (blockOffset : UInt64) (bytes : ChecksummedBytes) (objectSize : ℕ)
    (fs : PutFs) (expressFails : Bool)
    (hrep : PutRepresentable cacheKey bytes) :
    Serving sha256 crc cache (puts ++ [⟨cache.expressConfig, cacheKey, blockIdx, blockOffset, bytes⟩])
      (r.step sha256 crc cache
        (.putBlock cacheKey blockIdx blockOffset bytes objectSize fs expressFails)) := by
  set q : Express.BlockPut := ⟨cache.expressConfig, cacheKey, blockIdx, blockOffset, bytes⟩
  have hsub : puts ⊆ puts ++ [q] := List.subset_append_left _ _
  have hq : q ∈ puts ++ [q] := List.mem_append_right _ (List.mem_singleton_self q)
  refine
    { config := by simp only [MultilevelRun.step, config_step, hr.config]
      disk := hr.disk.step hrep
      shared := hr.shared.step _
      diskPut := diskPut_step_putBlock hr.config (fun k put hk => (hr.diskPut k put hk).mono hsub)
        (ServedBy.of_mem hq) fs
      sharedPut := fun key p hp => ?_
      spawnedPut := fun s hs => ?_
      representable := fun q' hq' => ?_ }
  · rcases @Express.step_putBlock_cases sha256 crc r.shared cache.expressConfig cacheKey blockIdx
      blockOffset bytes objectSize expressFails with h | ⟨-, h⟩
    · simp only [MultilevelRun.step, h] at hp
      exact hsub (hr.sharedPut key p hp)
    · simp only [MultilevelRun.step, h, Express.SharedRun.write] at hp
      by_cases hkey : key = Express.getS3Key sha256
          (Express.ExpressDataCache.new sha256 cache.expressConfig).keyPrefix cacheKey blockIdx
      · rw [hkey, Function.update_self, Option.some.injEq] at hp
        rw [← hp]
        exact hq
      · rw [Function.update_of_ne hkey] at hp
        exact hsub (hr.sharedPut key p hp)
  · obtain ⟨hoff, hserved⟩ := hr.spawnedPut s hs
    exact ⟨hoff, hserved.mono hsub⟩
  · rcases List.mem_append.1 hq' with hq' | hq'
    · exact hr.representable q' hq'
    · rw [List.mem_singleton.1 hq']
      exact hrep

theorem Serving.step_runSpawned (hr : Serving sha256 crc cache puts r) (i : ℕ) (fs : PutFs) :
    Serving sha256 crc cache puts (r.step sha256 crc cache (.runSpawned i fs)) := by
  simp only [MultilevelRun.step]
  split
  · exact hr
  · rename_i s hs
    have hmem : s ∈ r.spawned := List.mem_of_getElem? hs
    obtain ⟨hoff, hserved⟩ := hr.spawnedPut s hmem
    exact
      { hr with
        config := by rw [config_step, hr.config]
        disk := hr.disk.step (hserved.representable hr.representable s.blockOffset fs)
        diskPut := diskPut_step_putBlock hr.config hr.diskPut hserved fs
        spawnedPut := fun s' hs' => hr.spawnedPut s' (List.mem_of_mem_eraseIdx hs') }

theorem Serving.step_express (hr : Serving sha256 crc cache puts r) (e : Express.ExpressEvent)
    (hrep : (MultilevelEvent.express e).Representable) :
    Serving sha256 crc cache (puts ++ (MultilevelEvent.express e).blockPuts cache.expressConfig)
      (r.step sha256 crc cache (.express e)) := by
  have hsub : puts ⊆ puts ++ (MultilevelEvent.express e).blockPuts cache.expressConfig :=
    List.subset_append_left _ _
  refine
    { config := hr.config
      disk := hr.disk
      shared := hr.shared.step e
      diskPut := fun k put hk => (hr.diskPut k put hk).mono hsub
      sharedPut := fun key p hp => ?_
      spawnedPut := fun s hs => ⟨(hr.spawnedPut s hs).1, (hr.spawnedPut s hs).2.mono hsub⟩
      representable := fun q hq => ?_ }
  · simp only [MultilevelRun.step] at hp
    cases e with
    | getBlock => exact hsub (hr.sharedPut key p hp)
    | putBlock config cacheKey blockIdx blockOffset bytes objectSize fails =>
      rcases @Express.step_putBlock_cases sha256 crc r.shared config cacheKey blockIdx blockOffset bytes
        objectSize fails with h | ⟨-, h⟩
      · rw [h] at hp
        exact hsub (hr.sharedPut key p hp)
      · rw [h] at hp
        simp only [Express.SharedRun.write] at hp
        by_cases hkey : key = Express.getS3Key sha256 (Express.ExpressDataCache.new sha256 config).keyPrefix
            cacheKey blockIdx
        · rw [hkey, Function.update_self, Option.some.injEq] at hp
          rw [← hp]
          simp [MultilevelEvent.blockPuts]
        · rw [Function.update_of_ne hkey] at hp
          exact hsub (hr.sharedPut key p hp)
    | verifyCacheValid config fails =>
      rcases @Express.step_verifyCacheValid_cases sha256 crc r.shared config fails with h | ⟨data, h⟩
      · rw [h] at hp
        exact hsub (hr.sharedPut key p hp)
      · rw [h] at hp
        simp only [Express.SharedRun.write] at hp
        by_cases hkey : key = (Express.ExpressDataCache.new sha256 config).keyPrefix ++
            "/_mountpoint_cache_metadata"
        · rw [hkey, Function.update_self] at hp
          cases hp
        · rw [Function.update_of_ne hkey] at hp
          exact hsub (hr.sharedPut key p hp)
  · rcases List.mem_append.1 hq with hq | hq
    · exact hr.representable q hq
    · cases e with
      | putBlock config cacheKey blockIdx blockOffset bytes objectSize fails =>
        simp only [MultilevelEvent.blockPuts, List.mem_singleton] at hq
        rw [hq]
        exact hrep
      | getBlock => cases hq
      | verifyCacheValid => cases hq

/-- One call keeps the invariant, the puts so far grown by the call's own. -/
theorem Serving.step (hr : Serving sha256 crc cache puts r) (e : MultilevelEvent)
    (hrep : e.Representable) :
    Serving sha256 crc cache (puts ++ e.blockPuts cache.expressConfig) (r.step sha256 crc cache e) := by
  cases e with
  | getBlock cacheKey blockIdx blockOffset objectSize expressFails =>
    simp only [MultilevelEvent.blockPuts, List.append_nil]
    exact hr.step_getBlock cacheKey blockIdx blockOffset objectSize expressFails
  | putBlock cacheKey blockIdx blockOffset bytes objectSize fs expressFails =>
    exact hr.step_putBlock cacheKey blockIdx blockOffset bytes objectSize fs expressFails hrep
  | runSpawned i fs =>
    simp only [MultilevelEvent.blockPuts, List.append_nil]
    exact hr.step_runSpawned i fs
  | express e => exact hr.step_express e hrep

end Step

theorem Serving.run {puts : List Express.BlockPut} {r : MultilevelRun}
    (hr : Serving sha256 crc cache puts r) (events : List MultilevelEvent)
    (hevents : ∀ e ∈ events, e.Representable) :
    Serving sha256 crc cache (puts ++ events.flatMap (MultilevelEvent.blockPuts cache.expressConfig))
      (run (MultilevelRun.step sha256 crc cache) r events) := by
  induction events generalizing puts r with
  | nil => simpa using hr
  | cons e events ih =>
    have := ih (hr.step e (hevents e List.mem_cons_self)) fun e' he' =>
      hevents e' (List.mem_cons_of_mem _ he')
    simpa [List.append_assoc] using this

/-- Under the invariant, every hit of the multilevel cache, from the disk or from the bucket, is
served by a put of its block. -/
theorem Serving.hit {puts : List Express.BlockPut} {r : MultilevelRun}
    (hr : Serving sha256 crc cache puts r) {cacheKey : ObjectId} {blockIdx : BlockIndex}
    {blockOffset : UInt64} {objectSize : ℕ} {expressFails : Bool} {hit : ChecksummedBytes}
    (hhit : (cache.getBlock sha256 crc r.disk.cache r.shared.client cacheKey blockIdx blockOffset
      objectSize expressFails).1 = .ok (some hit)) :
    ServedBy crc puts cache.expressConfig.sourceBucketName cacheKey blockIdx blockOffset hit := by
  rcases MultilevelDataCache.getBlock_fst_eq_some hhit with hdisk | hexpress
  · -- a disk hit: the last put of the block's key, at the block's offset
    obtain ⟨hoff, -⟩ := DiskDataCache.readBlock_of_getBlock hdisk
    obtain ⟨bytes, hput, hslice, hsound⟩ := hr.disk.hit hdisk
    have hserved := hr.diskPut _ _ hput
    rw [show (DiskBlockKey.new sha256 cacheKey blockIdx).blockIndex = blockIdx from rfl, ← hr.config,
      ← hoff] at hserved
    exact hserved.of_bufferSlice hslice hsound.2
  · exact (served_of_express_hit hr.shared hr.sharedPut hexpress).2

/-- **The multilevel cache serves only what was put.** In every run of a multilevel cache, with its
spawned disk puts run in any order or never, other instances' caches using the bucket, and any
request failing, every `get_block` hit, from the disk or from the bucket, returns the bytes that
some `put_block` of the same object, block index and offset was given, by this cache or by one of
the same source bucket; and it is unsound only if those bytes were. -/
theorem multilevel_cache_serves_puts (sha256 : List UInt8 → List UInt8) (crc : Crc)
    (cache : MultilevelDataCache) (bucket : String) (partSize : ℕ) (hpart : 0 < partSize)
    (events : List MultilevelEvent) (hevents : ∀ e ∈ events, e.Representable) (cacheKey : ObjectId)
    (blockIdx : BlockIndex) (blockOffset : UInt64) (objectSize : ℕ) (expressFails : Bool)
    (hit : ChecksummedBytes)
    (hhit : (cache.getBlock sha256 crc
      (run (MultilevelRun.step sha256 crc cache) (MultilevelRun.new cache bucket partSize hpart) events).disk.cache
      (run (MultilevelRun.step sha256 crc cache) (MultilevelRun.new cache bucket partSize hpart) events).shared.client
      cacheKey blockIdx blockOffset objectSize expressFails).1 = .ok (some hit)) :
    ServedBy crc (events.flatMap (MultilevelEvent.blockPuts cache.expressConfig))
      cache.expressConfig.sourceBucketName cacheKey blockIdx blockOffset hit := by
  have hr := (@Serving.init sha256 crc cache bucket partSize hpart).run events hevents
  rw [List.nil_append] at hr
  exact hr.hit hhit

theorem multilevel_cache_serves_puts_spawned :
    (∀ e ∈ [MultilevelEvent.express (.putBlock ⟨"express", "source", 4, 16⟩ ⟨"a", "e"⟩ 0 0
        (ChecksummedBytes.new byteSum [1, 2, 3]) 3 false), .getBlock ⟨"a", "e"⟩ 0 0 3 false,
        .runSpawned 0 ⟨fun _ => none, fun _ => false, false⟩], e.Representable) ∧
    ((⟨⟨4, .unbounded⟩, ⟨"express", "source", 4, 16⟩, rfl⟩ : MultilevelDataCache).getBlock id byteSum
      (run (MultilevelRun.step id byteSum ⟨⟨4, .unbounded⟩, ⟨"express", "source", 4, 16⟩, rfl⟩)
        (MultilevelRun.new ⟨⟨4, .unbounded⟩, ⟨"express", "source", 4, 16⟩, rfl⟩ "express" 4 (by decide))
        [.express (.putBlock ⟨"express", "source", 4, 16⟩ ⟨"a", "e"⟩ 0 0
          (ChecksummedBytes.new byteSum [1, 2, 3]) 3 false), .getBlock ⟨"a", "e"⟩ 0 0 3 false,
          .runSpawned 0 ⟨fun _ => none, fun _ => false, false⟩]).disk.cache
      (run (MultilevelRun.step id byteSum ⟨⟨4, .unbounded⟩, ⟨"express", "source", 4, 16⟩, rfl⟩)
        (MultilevelRun.new ⟨⟨4, .unbounded⟩, ⟨"express", "source", 4, 16⟩, rfl⟩ "express" 4 (by decide))
        [.express (.putBlock ⟨"express", "source", 4, 16⟩ ⟨"a", "e"⟩ 0 0
          (ChecksummedBytes.new byteSum [1, 2, 3]) 3 false), .getBlock ⟨"a", "e"⟩ 0 0 3 false,
          .runSpawned 0 ⟨fun _ => none, fun _ => false, false⟩]).shared.client
      ⟨"a", "e"⟩ 0 0 3 true).1 = .ok (some (ChecksummedBytes.newFromInnerData [1, 2, 3] 6)) ∧
    ServedBy byteSum ([MultilevelEvent.express (.putBlock ⟨"express", "source", 4, 16⟩ ⟨"a", "e"⟩ 0 0
        (ChecksummedBytes.new byteSum [1, 2, 3]) 3 false), .getBlock ⟨"a", "e"⟩ 0 0 3 false,
        .runSpawned 0 ⟨fun _ => none, fun _ => false, false⟩].flatMap (MultilevelEvent.blockPuts ⟨"express", "source", 4, 16⟩))
      "source" ⟨"a", "e"⟩ 0 0 (ChecksummedBytes.newFromInnerData [1, 2, 3] 6) :=
  ⟨by decide, by rfl, multilevel_cache_serves_puts id byteSum ⟨⟨4, .unbounded⟩, ⟨"express", "source", 4, 16⟩, rfl⟩
    "express" 4 (by decide) _ (by decide) ⟨"a", "e"⟩ 0 0 3 true _ (by rfl)⟩

end MountpointS3.DataCache
