import MountpointS3.DataCache.Express
import MountpointS3.Foundations.Run

/-!
# Caches that share an S3 Express bucket

Mountpoint instances of any source bucket, block size and size limit may share one S3 Express
bucket as their cache. The bucket keeps the last object written under each key, and the keys of
two blocks may collide (the prefix and the middle of a key are hashes). A run is any interleaving
of the calls of such caches: `get_block`, `put_block` and `verify_cache_valid` of an
`ExpressDataCache` of any configuration, each of whose requests may fail. The ghost `lastPut`
records for each key the `put_block` that stored the object now there.

* `Coherent`: each key holds the object its last put stored, or, with none recorded, nothing or
  an object without metadata; `Coherent.step`, `Coherent.run` carry it along a run;
* `express_cache_serves_matching_put`: a hit is the block of the last put of its key, and that
  put was of the same object, block index and offset, from a cache of the same source bucket;
* `express_cache_hits_last_put`: conversely, a get that does not fail hits whenever the last put
  of its key was of the block it asks for.
-/

namespace MountpointS3.DataCache.Express

open Foundations Checksums Client

/-- A call of an `ExpressDataCache` of configuration `config` on the shared bucket; `fails` fails
its request. -/
inductive ExpressEvent
  | getBlock (config : ExpressDataCacheConfig) (cacheKey : ObjectId) (blockIdx : BlockIndex)
      (blockOffset : UInt64) (objectSize : ℕ) (fails : Bool)
  | putBlock (config : ExpressDataCacheConfig) (cacheKey : ObjectId) (blockIdx : BlockIndex)
      (blockOffset : UInt64) (bytes : ChecksummedBytes) (objectSize : ℕ) (fails : Bool)
  | verifyCacheValid (config : ExpressDataCacheConfig) (fails : Bool)

/-- A `put_block` call of a cache of configuration `config`. -/
structure BlockPut where
  config : ExpressDataCacheConfig
  cacheKey : ObjectId
  blockIdx : BlockIndex
  blockOffset : UInt64
  bytes : ChecksummedBytes

/-- The shared bucket, and the put that stored the object under each key. -/
structure SharedRun where
  client : MockClient
  lastPut : String → Option BlockPut

section

variable (sha256 : List UInt8 → List UInt8) (crc : Crc)

/-- The object a put stores. -/
def BlockPut.object (p : BlockPut) : StoredObject :=
  storedBlock crc p.config.sourceBucketName p.cacheKey p.blockIdx p.blockOffset p.bytes

/-- An empty bucket with nothing put. -/
def SharedRun.new (bucket : String) (partSize : ℕ) (hpart : 0 < partSize) : SharedRun :=
  ⟨⟨bucket, partSize, hpart, fun _ => none⟩, fun _ => none⟩

/-- One call on the shared bucket. -/
def SharedRun.step (r : SharedRun) : ExpressEvent → SharedRun
  | .getBlock .. => r
  | .putBlock config cacheKey blockIdx blockOffset bytes objectSize fails =>
    let cache := ExpressDataCache.new sha256 config
    match cache.putBlock sha256 crc r.client fails cacheKey blockIdx blockOffset bytes objectSize with
    | (.error _, client) => { r with client }
    | (.ok (), client) =>
      if objectSize ≤ config.maxObjectSize then
        { client,
          lastPut := Function.update r.lastPut (getS3Key sha256 cache.keyPrefix cacheKey blockIdx)
            (some ⟨config, cacheKey, blockIdx, blockOffset, bytes⟩) }
      else { r with client }
  | .verifyCacheValid config fails =>
    let cache := ExpressDataCache.new sha256 config
    match cache.verifyCacheValid crc r.client fails with
    | (.error _, client) => { r with client }
    | (.ok (), client) =>
      { client,
        lastPut := Function.update r.lastPut (cache.keyPrefix ++ "/_mountpoint_cache_metadata") none }

/-- The bucket after `object` is written under `key`, with `last` recorded as the key's put. -/
def SharedRun.write (r : SharedRun) (key : String) (object : StoredObject) (last : Option BlockPut) :
    SharedRun :=
  { client := { r.client with objects := Function.update r.client.objects key (some object) },
    lastPut := Function.update r.lastPut key last }

@[simp] theorem SharedRun.bucket_write (r : SharedRun) (key : String) (object : StoredObject)
    (last : Option BlockPut) : (r.write key object last).client.bucket = r.client.bucket := rfl

/-- Each key holds the object of its last put; with no put recorded, it holds nothing, or an
object without metadata. -/
def Coherent (r : SharedRun) : Prop :=
  ∀ key, (∀ p, r.lastPut key = some p → r.client.objects key = some (p.object crc)) ∧
    (r.lastPut key = none → ∀ o, r.client.objects key = some o → o.objectMetadata = [])

end

variable {sha256 : List UInt8 → List UInt8} {crc : Crc}

/-! ## What a step does -/

/-- A put leaves the bucket as it was, or stores its block and records itself. -/
theorem step_putBlock_cases (r : SharedRun) (config : ExpressDataCacheConfig) (cacheKey : ObjectId)
    (blockIdx : BlockIndex) (blockOffset : UInt64) (bytes : ChecksummedBytes) (objectSize : ℕ)
    (fails : Bool) :
    r.step sha256 crc (.putBlock config cacheKey blockIdx blockOffset bytes objectSize fails) = r ∨
      (config.bucketName = r.client.bucket ∧
        r.step sha256 crc (.putBlock config cacheKey blockIdx blockOffset bytes objectSize fails) =
          r.write (getS3Key sha256 (ExpressDataCache.new sha256 config).keyPrefix cacheKey blockIdx)
            (BlockPut.object crc ⟨config, cacheKey, blockIdx, blockOffset, bytes⟩)
            (some ⟨config, cacheKey, blockIdx, blockOffset, bytes⟩)) := by
  rcases @ExpressDataCache.writeBlock_cases sha256 crc (ExpressDataCache.new sha256 config) r.client
    fails cacheKey blockIdx blockOffset bytes objectSize with ⟨e, he⟩ | ⟨hsize, hok⟩ | ⟨hsize, -, hbucket, hok⟩
  · left
    simp only [SharedRun.step, ExpressDataCache.putBlock, he]
  · left
    rw [ExpressDataCache.config_new] at hsize
    simp only [SharedRun.step, ExpressDataCache.putBlock, hok, if_neg (Nat.not_le_of_lt hsize)]
  · right
    rw [ExpressDataCache.config_new] at hsize hbucket
    refine ⟨hbucket, ?_⟩
    simp only [SharedRun.step, ExpressDataCache.putBlock, hok, if_pos hsize]
    rfl

/-- `verify_cache_valid` leaves the bucket as it was, or stores an object without metadata and
forgets the put of its key. -/
theorem step_verifyCacheValid_cases (r : SharedRun) (config : ExpressDataCacheConfig) (fails : Bool) :
    r.step sha256 crc (.verifyCacheValid config fails) = r ∨
      ∃ data, r.step sha256 crc (.verifyCacheValid config fails) =
        r.write ((ExpressDataCache.new sha256 config).keyPrefix ++ "/_mountpoint_cache_metadata")
          ⟨data, [], none⟩ none := by
  rcases @ExpressDataCache.verifyCacheValid_cases crc (ExpressDataCache.new sha256 config) r.client
    fails with ⟨e, he⟩ | ⟨data, hok⟩
  · left
    simp only [SharedRun.step, he]
  · right
    exact ⟨data, by simp only [SharedRun.step, hok]; rfl⟩

/-- A put leaves the bucket as `put_block` does. -/
theorem client_step_putBlock (r : SharedRun) (config : ExpressDataCacheConfig) (cacheKey : ObjectId)
    (blockIdx : BlockIndex) (blockOffset : UInt64) (bytes : ChecksummedBytes) (objectSize : ℕ)
    (fails : Bool) :
    (r.step sha256 crc (.putBlock config cacheKey blockIdx blockOffset bytes objectSize fails)).client =
      ((ExpressDataCache.new sha256 config).putBlock sha256 crc r.client fails cacheKey blockIdx
        blockOffset bytes objectSize).2 := by
  simp only [SharedRun.step]
  split
  · rename_i heq
    rw [heq]
  · rename_i heq
    split <;> rw [heq]

@[simp] theorem bucket_step (r : SharedRun) (e : ExpressEvent) :
    (r.step sha256 crc e).client.bucket = r.client.bucket := by
  cases e with
  | getBlock => rfl
  | putBlock config cacheKey blockIdx blockOffset bytes objectSize fails =>
    rcases @step_putBlock_cases sha256 crc r config cacheKey blockIdx blockOffset bytes objectSize
      fails with h | ⟨-, h⟩ <;> simp only [h, SharedRun.bucket_write]
  | verifyCacheValid config fails =>
    rcases @step_verifyCacheValid_cases sha256 crc r config fails with h | ⟨data, h⟩ <;>
      simp only [h, SharedRun.bucket_write]

theorem bucket_run (r : SharedRun) (events : List ExpressEvent) :
    (run (SharedRun.step sha256 crc) r events).client.bucket = r.client.bucket := by
  induction events generalizing r with
  | nil => rfl
  | cons e events ih => rw [run_cons, ih, bucket_step]

/-! ## The invariant -/

theorem Coherent.init (bucket : String) (partSize : ℕ) (hpart : 0 < partSize) :
    Coherent crc (SharedRun.new bucket partSize hpart) := fun _ =>
  ⟨fun _ h => absurd h (by simp [SharedRun.new]), fun _ _ h => absurd h (by simp [SharedRun.new])⟩

/-- Writing one key keeps the invariant when the ghost of the key is set to match. -/
theorem Coherent.write {r : SharedRun} (hr : Coherent crc r) (key : String) (object : StoredObject)
    (last : Option BlockPut) (hmatch : (∀ p, last = some p → object = p.object crc) ∧
      (last = none → object.objectMetadata = [])) :
    Coherent crc (r.write key object last) := by
  intro key'
  by_cases hkey : key' = key
  · subst hkey
    simp only [SharedRun.write, Function.update_self, Option.some.injEq]
    exact ⟨fun p hp => by rw [hmatch.1 p hp], fun hnone o ho => ho ▸ hmatch.2 hnone⟩
  · simp only [SharedRun.write, Function.update_of_ne hkey]
    exact hr key'

theorem Coherent.step {r : SharedRun} (hr : Coherent crc r) (e : ExpressEvent) :
    Coherent crc (r.step sha256 crc e) := by
  cases e with
  | getBlock => exact hr
  | putBlock config cacheKey blockIdx blockOffset bytes objectSize fails =>
    rcases @step_putBlock_cases sha256 crc r config cacheKey blockIdx blockOffset bytes objectSize
      fails with h | ⟨-, h⟩ <;> rw [h]
    · exact hr
    · exact hr.write _ _ _ ⟨fun p hp => (by cases hp; rfl), fun h => nomatch h⟩
  | verifyCacheValid config fails =>
    rcases @step_verifyCacheValid_cases sha256 crc r config fails with h | ⟨data, h⟩ <;> rw [h]
    · exact hr
    · exact hr.write _ _ _ ⟨fun _ hp => (nomatch hp), fun _ => rfl⟩

theorem Coherent.run {r : SharedRun} (hr : Coherent crc r) (events : List ExpressEvent) :
    Coherent crc (run (SharedRun.step sha256 crc) r events) :=
  run_invariant (P := Coherent crc) (fun _ e h => h.step e) events hr

/-! ## Reads -/

/-- A hit is the block of the last put of its key, which was of the same block from a cache of the
same source bucket. -/
theorem Coherent.hit {r : SharedRun} (hr : Coherent crc r) {config : ExpressDataCacheConfig}
    {cacheKey : ObjectId} {blockIdx : BlockIndex} {blockOffset : UInt64} {objectSize : ℕ}
    {fails : Bool} {hit : ChecksummedBytes}
    (hhit : (ExpressDataCache.new sha256 config).getBlock sha256 crc r.client fails cacheKey blockIdx
      blockOffset objectSize = .ok (some hit)) :
    ∃ p, r.lastPut (getS3Key sha256 (ExpressDataCache.new sha256 config).keyPrefix cacheKey blockIdx) =
        some p ∧
      p.config.sourceBucketName = config.sourceBucketName ∧ p.cacheKey = cacheKey ∧
      p.blockIdx = blockIdx ∧ p.blockOffset = blockOffset ∧ hit.Sound crc ∧
      hit.bufferSlice = p.bytes.bufferSlice := by
  obtain ⟨-, -, object, crc32cB64, crc32c, hobject, hb64, hcrc, hvalid, rfl⟩ :=
    ExpressDataCache.readBlock_eq_some hhit
  set key := getS3Key sha256 (ExpressDataCache.new sha256 config).keyPrefix cacheKey blockIdx
  cases hlast : r.lastPut key with
  | none =>
    -- an object without metadata fails the check of every block
    have hnil := (hr key).2 hlast object hobject
    rw [hnil] at hvalid
    exact absurd hvalid (BlockMetadata.validateObjectMetadata_of_lookup_eq_none rfl)
  | some p =>
    have hp := (hr key).1 p hlast
    rw [hobject, Option.some.injEq] at hp
    subst hp
    simp only [BlockPut.object, storedBlock, Option.some.injEq] at hb64
    subst hb64
    rw [crc32cFromBase64_crc32cToBase64, Option.some.injEq] at hcrc
    subst hcrc
    obtain ⟨hidx, hoff, hkey, hsource⟩ := BlockMetadata.validateObjectMetadata_of_eq_ok hvalid
    have hexact : (ChecksummedBytes.newFromInnerData p.bytes.bufferSlice
        (crc.checksum p.bytes.bufferSlice)).len = p.bytes.bufferSlice.length := by
      simp [ChecksummedBytes.len, ChecksummedBytes.newFromInnerData]
    exact ⟨p, rfl, hsource, hkey, hidx, hoff, rfl, ChecksummedBytes.bufferSlice_of_exact hexact⟩

/-- A get that does not fail hits whenever the last put of its key was of the block it asks for,
from a cache of the same source bucket. -/
theorem Coherent.get_of_lastPut {r : SharedRun} (hr : Coherent crc r) {config : ExpressDataCacheConfig}
    (hbucket : config.bucketName = r.client.bucket) {p : BlockPut}
    (hlast : r.lastPut (getS3Key sha256 (ExpressDataCache.new sha256 config).keyPrefix p.cacheKey
      p.blockIdx) = some p)
    (hsource : p.config.sourceBucketName = config.sourceBucketName)
    (hoffset : p.blockOffset = p.blockIdx * config.blockSize) {objectSize : ℕ}
    (hsize : objectSize ≤ config.maxObjectSize) :
    (ExpressDataCache.new sha256 config).getBlock sha256 crc r.client false p.cacheKey p.blockIdx
      p.blockOffset objectSize =
        .ok (some (ChecksummedBytes.newFromInnerData p.bytes.bufferSlice
          (crc.checksum p.bytes.bufferSlice))) := by
  have hobject := (hr _).1 p hlast
  rw [BlockPut.object, hsource] at hobject
  exact ExpressDataCache.readBlock_storedBlock hsize hoffset hbucket hobject

variable (sha256 crc)

/-- **Hits serve a matching put.** In every run of caches of any configurations sharing one bucket,
with any requests failing, a hit of a cache is the block that the last put of its key stored, with
a sound checksum; and that put was of the same object, block index and offset, from a cache of the
same source bucket, however the keys of other blocks collide. -/
theorem express_cache_serves_matching_put (bucket : String) (partSize : ℕ) (hpart : 0 < partSize)
    (events : List ExpressEvent) (config : ExpressDataCacheConfig) (cacheKey : ObjectId)
    (blockIdx : BlockIndex) (blockOffset : UInt64) (objectSize : ℕ) (fails : Bool)
    (hit : ChecksummedBytes)
    (hhit : (ExpressDataCache.new sha256 config).getBlock sha256 crc
      (run (SharedRun.step sha256 crc) (SharedRun.new bucket partSize hpart) events).client fails
      cacheKey blockIdx blockOffset objectSize = .ok (some hit)) :
    ∃ p, (run (SharedRun.step sha256 crc) (SharedRun.new bucket partSize hpart) events).lastPut
        (getS3Key sha256 (ExpressDataCache.new sha256 config).keyPrefix cacheKey blockIdx) = some p ∧
      p.config.sourceBucketName = config.sourceBucketName ∧ p.cacheKey = cacheKey ∧
      p.blockIdx = blockIdx ∧ p.blockOffset = blockOffset ∧ hit.Sound crc ∧
      hit.bufferSlice = p.bytes.bufferSlice :=
  ((Coherent.init bucket partSize hpart).run events).hit hhit

theorem express_cache_serves_matching_put_one_put :
    (0 : ℕ) < 4 ∧
    (ExpressDataCache.new id ⟨"express", "source", 4, 16⟩).getBlock id byteSum
        (run (SharedRun.step id byteSum) (SharedRun.new "express" 4 (by decide))
          [.putBlock ⟨"express", "source", 4, 16⟩ ⟨"a", "e"⟩ 0 0 (ChecksummedBytes.new byteSum [1, 2, 3])
            3 false]).client false ⟨"a", "e"⟩ 0 0 3 =
      .ok (some (ChecksummedBytes.newFromInnerData [1, 2, 3] 6)) ∧
    ∃ p, (run (SharedRun.step id byteSum) (SharedRun.new "express" 4 (by decide))
          [.putBlock ⟨"express", "source", 4, 16⟩ ⟨"a", "e"⟩ 0 0 (ChecksummedBytes.new byteSum [1, 2, 3])
            3 false]).lastPut
        (getS3Key id (ExpressDataCache.new id ⟨"express", "source", 4, 16⟩).keyPrefix ⟨"a", "e"⟩ 0) = some p ∧
      p.config.sourceBucketName = "source" ∧ p.cacheKey = ⟨"a", "e"⟩ ∧ p.blockIdx = 0 ∧ p.blockOffset = 0 ∧
      (ChecksummedBytes.newFromInnerData [1, 2, 3] 6).Sound byteSum ∧
      (ChecksummedBytes.newFromInnerData [1, 2, 3] 6).bufferSlice = p.bytes.bufferSlice :=
  ⟨by decide, by rfl, express_cache_serves_matching_put id byteSum "express" 4 (by decide) _
    ⟨"express", "source", 4, 16⟩ ⟨"a", "e"⟩ 0 0 3 false _ (by rfl)⟩

/-- **A get hits the last put of its block.** In every run, a get by a cache of the bucket that
does not fail, of an object within its size limit, at the offset of its block size, hits whenever
the last put of its key was of the block it asks for from a cache of the same source bucket, and
returns that put's bytes with their checksum. -/
theorem express_cache_hits_last_put (bucket : String) (partSize : ℕ) (hpart : 0 < partSize)
    (events : List ExpressEvent) (config : ExpressDataCacheConfig) (hbucket : config.bucketName = bucket)
    (p : BlockPut)
    (hlast : (run (SharedRun.step sha256 crc) (SharedRun.new bucket partSize hpart) events).lastPut
      (getS3Key sha256 (ExpressDataCache.new sha256 config).keyPrefix p.cacheKey p.blockIdx) = some p)
    (hsource : p.config.sourceBucketName = config.sourceBucketName)
    (hoffset : p.blockOffset = p.blockIdx * config.blockSize) (objectSize : ℕ)
    (hsize : objectSize ≤ config.maxObjectSize) :
    (ExpressDataCache.new sha256 config).getBlock sha256 crc
      (run (SharedRun.step sha256 crc) (SharedRun.new bucket partSize hpart) events).client false
      p.cacheKey p.blockIdx p.blockOffset objectSize =
        .ok (some (ChecksummedBytes.newFromInnerData p.bytes.bufferSlice
          (crc.checksum p.bytes.bufferSlice))) :=
  ((Coherent.init bucket partSize hpart).run events).get_of_lastPut
    (by rw [bucket_run]; exact hbucket) hlast hsource hoffset hsize

/-- A put by one instance, then a get of its block by another of the same source bucket and block
size but a larger size limit. -/
theorem express_cache_hits_last_put_other_instance :
    (0 : ℕ) < 4 ∧ "express" = "express" ∧
    (run (SharedRun.step id byteSum) (SharedRun.new "express" 4 (by decide))
        [.putBlock ⟨"express", "source", 4, 16⟩ ⟨"a", "e"⟩ 0 0 (ChecksummedBytes.new byteSum [1, 2, 3])
          3 false]).lastPut
      (getS3Key id (ExpressDataCache.new id ⟨"express", "source", 4, 100⟩).keyPrefix ⟨"a", "e"⟩ 0) =
        some ⟨⟨"express", "source", 4, 16⟩, ⟨"a", "e"⟩, 0, 0, ChecksummedBytes.new byteSum [1, 2, 3]⟩ ∧
    "source" = "source" ∧ (0 : UInt64) = 0 * 4 ∧ 50 ≤ 100 ∧
    (ExpressDataCache.new id ⟨"express", "source", 4, 100⟩).getBlock id byteSum
        (run (SharedRun.step id byteSum) (SharedRun.new "express" 4 (by decide))
          [.putBlock ⟨"express", "source", 4, 16⟩ ⟨"a", "e"⟩ 0 0 (ChecksummedBytes.new byteSum [1, 2, 3])
            3 false]).client false ⟨"a", "e"⟩ 0 0 50 =
      .ok (some (ChecksummedBytes.newFromInnerData [1, 2, 3] 6)) :=
  ⟨by decide, rfl, by rfl, rfl, by decide, by decide,
    express_cache_hits_last_put id byteSum "express" 4 (by decide) _ ⟨"express", "source", 4, 100⟩ rfl
      ⟨⟨"express", "source", 4, 16⟩, ⟨"a", "e"⟩, 0, 0, ChecksummedBytes.new byteSum [1, 2, 3]⟩ (by rfl) rfl
      (by decide) 50 (by decide)⟩

end MountpointS3.DataCache.Express
