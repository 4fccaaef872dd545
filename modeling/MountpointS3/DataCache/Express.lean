import MountpointS3.Client.Objects
import MountpointS3.DataCache.Types

/-!
# The S3 Express data cache

`express_data_cache.rs`: a data cache on an S3 Express One Zone bucket that Mountpoint instances
share. A block is an object under `get_s3_key(prefix, cache_key, block_idx)`, the prefix a hash of
the source bucket and the block size, the middle a hash of the object's key and ETag. Hashes may
collide, so the object carries its block's `BlockMetadata` as user metadata, which a read checks
header by header against the block it wants, and the CRC32C of its data, which the put sends and
the get returns.

* `validateObjectMetadata_eq_ok_iff`: the check passes when each of the seven headers is present
  and holds the value of the block asked for;
* `validateObjectMetadata_of_eq_ok`: metadata written for one block passes the check of another
  only if the two have the same block index, offset, object and source bucket;
  `validateObjectMetadata_self`: it passes its own;
* for a CRC that detects every change within four bytes, it passes exactly when both were built
  from the same arguments, data checksum included, which the header checksum binds
  (`headerChecksum_eq_of_validateObjectMetadata`);
* `collectBody_bodyPartsFrom`: the body loop of `read_block` reassembles what the client streams;
* `readBlock_eq_some`: what a hit is made of; `writeBlock_cases`: a put stores `storedBlock`, or
  leaves the bucket as it was.
-/

namespace MountpointS3.DataCache.Express

open Foundations Checksums Client

/-- `CACHE_VERSION`. -/
def cacheVersion : String := "V2"

/-- `ExpressDataCacheConfig`, without the SSE settings. -/
structure ExpressDataCacheConfig where
  bucketName : String
  sourceBucketName : String
  blockSize : UInt64
  maxObjectSize : ℕ
  deriving DecidableEq, Repr

/-- `BlockMetadata`. -/
structure BlockMetadata where
  blockIdx : BlockIndex
  blockOffset : UInt64
  etag : String
  sourceKey : String
  sourceBucketName : String
  dataChecksum : UInt32
  headerChecksum : UInt32
  deriving DecidableEq, Repr

section

variable (sha256 : List UInt8 → List UInt8) (crc : Crc)

/-- `build_prefix`. -/
def buildPrefix (sourceBucketName : String) (blockSize : UInt64) : String :=
  hexEncode (sha256 (utf8Bytes cacheVersion ++ beBytes 8 blockSize.toNat ++ utf8Bytes sourceBucketName))

/-- `get_s3_key`. -/
def getS3Key (keyPrefix : String) (cacheKey : ObjectId) (blockIdx : BlockIndex) : String :=
  let hashedCacheKey := hexEncode (sha256 (utf8Bytes cacheKey.key ++ utf8Bytes cacheKey.etag))
  keyPrefix ++ "/" ++ hashedCacheKey ++ "/" ++ Decimal.padZeros 10 blockIdx.toNat

namespace BlockMetadata

/-- `BlockMetadata::get_header_checksum`. -/
def getHeaderChecksum (blockIdx : BlockIndex) (blockOffset : UInt64) (cacheKey : ObjectId)
    (sourceBucketName : String) (dataChecksum : UInt32) : UInt32 :=
  crc.checksum (utf8Bytes cacheVersion ++ beBytes 8 blockIdx.toNat ++ beBytes 8 blockOffset.toNat ++
    utf8Bytes cacheKey.etag ++ utf8Bytes cacheKey.key ++ utf8Bytes sourceBucketName ++
    beBytes 4 dataChecksum.toNat)

/-- `BlockMetadata::new`. -/
def new (blockIdx : BlockIndex) (blockOffset : UInt64) (cacheKey : ObjectId)
    (sourceBucketName : String) (dataChecksum : UInt32) : BlockMetadata :=
  let headerChecksum := getHeaderChecksum crc blockIdx blockOffset cacheKey sourceBucketName dataChecksum
  { blockIdx, blockOffset, etag := cacheKey.etag, sourceKey := cacheKey.key, sourceBucketName,
    dataChecksum, headerChecksum }

/-- `BlockMetadata::to_put_object_params`. -/
def toPutObjectParams (self : BlockMetadata) : PutObjectSingleParams :=
  let sourceKeyEncoded := Base64.encodeString (utf8Bytes self.sourceKey)
  { objectMetadata :=
      [("cache-version", cacheVersion), ("block-idx", toString self.blockIdx),
        ("block-offset", toString self.blockOffset), ("etag", self.etag),
        ("source-key", sourceKeyEncoded), ("source-bucket-name", self.sourceBucketName),
        ("header-checksum", toString self.headerChecksum)]
    checksum := some self.dataChecksum }

/-- `BlockMetadata::validate_header`: the header is present and its value passes `isValid`. -/
def validateHeader (headers : List (String × String)) (header : String) (isValid : String → Bool) :
    Except DataCacheError Unit :=
  match headers.lookup header with
  | none => .error (.invalidBlockHeader header)
  | some value => if isValid value then .ok () else .error (.invalidBlockHeader header)

/-- `BlockMetadata::validate_object_metadata`. -/
def validateObjectMetadata (self : BlockMetadata) (headers : List (String × String)) :
    Except DataCacheError Unit := do
  validateHeader headers "cache-version" fun version => version == cacheVersion
  validateHeader headers "block-idx" fun blockIdx => Decimal.parseU64 blockIdx == some self.blockIdx
  validateHeader headers "block-offset" fun blockOffset =>
    Decimal.parseU64 blockOffset == some self.blockOffset
  validateHeader headers "etag" fun etag => etag == self.etag
  validateHeader headers "source-key" fun sourceKey =>
    sourceKey == Base64.encodeString (utf8Bytes self.sourceKey)
  validateHeader headers "source-bucket-name" fun sourceBucketName =>
    sourceBucketName == self.sourceBucketName
  validateHeader headers "header-checksum" fun headerChecksum =>
    Decimal.parseU32 headerChecksum == some self.headerChecksum

end BlockMetadata

/-- `ExpressDataCache`, without its client: the instances that share the bucket share one
`MockClient`, passed to each call. -/
structure ExpressDataCache where
  keyPrefix : String
  config : ExpressDataCacheConfig

namespace ExpressDataCache

/-- `ExpressDataCache::new`. -/
def new (config : ExpressDataCacheConfig) : ExpressDataCache :=
  ⟨buildPrefix sha256 config.sourceBucketName config.blockSize, config⟩

/-- `make_put_object_request`, without the SSE settings and the check of the response's. -/
def makePutObjectRequest (self : ExpressDataCache) (client : MockClient) (fails : Bool)
    (params : PutObjectSingleParams) (objectKey : String) (data : List UInt8) :
    Except DataCacheError Unit × MockClient :=
  match client.putObjectSingle crc fails self.config.bucketName objectKey params data with
  | .error _ => (.error .ioFailure, client)
  | .ok client => (.ok (), client)

/-- `verify_cache_valid`, without the storage class of its put. -/
def verifyCacheValid (self : ExpressDataCache) (client : MockClient) (fails : Bool) :
    Except DataCacheError Unit × MockClient :=
  let objectKey := self.keyPrefix ++ "/_mountpoint_cache_metadata"
  let data := "source_bucket=" ++ self.config.sourceBucketName ++ "\nblock_size=" ++
    toString self.config.blockSize
  self.makePutObjectRequest crc client fails ⟨[], none⟩ objectKey (utf8Bytes data)

/-- `Option::ok_or`. -/
def okOr {α : Type} (o : Option α) (err : DataCacheError) : Except DataCacheError α :=
  match o with
  | none => .error err
  | some a => .ok a

/-- The body loop of `read_block`: every part must start where the buffer ends. -/
def collectBody : List UInt8 → List GetBodyPart → Except DataCacheError (List UInt8)
  | buffer, [] => .ok buffer
  | buffer, part :: parts =>
    if part.offset ≠ buffer.length then .error .invalidBlockOffset
    else collectBody (buffer ++ part.data) parts

/-- `ExpressDataCache::read_block`. -/
def readBlock (self : ExpressDataCache) (client : MockClient) (fails : Bool) (cacheKey : ObjectId)
    (blockIdx : BlockIndex) (blockOffset : UInt64) (objectSize : ℕ) :
    Except DataCacheError (Option ChecksummedBytes) :=
  if objectSize > self.config.maxObjectSize then .ok none
  else if blockOffset ≠ blockIdx * self.config.blockSize then .error .invalidBlockOffset
  else
    let objectKey := getS3Key sha256 self.keyPrefix cacheKey blockIdx
    match client.getObject fails self.config.bucketName objectKey with
    | .error (.serviceError .noSuchKey) => .ok none
    | .error _ => .error .ioFailure
    | .ok result => do
      let buffer ← collectBody [] result.parts
      let crc32cB64 ← okOr result.checksumCrc32c .invalidBlockChecksum
      let crc32c ← okOr (crc32cFromBase64 crc32cB64) .invalidBlockChecksum
      let blockMetadata :=
        BlockMetadata.new crc blockIdx blockOffset cacheKey self.config.sourceBucketName crc32c
      blockMetadata.validateObjectMetadata result.objectMetadata
      pure (some (ChecksummedBytes.newFromInnerData buffer crc32c))

/-- `ExpressDataCache::write_block`. -/
def writeBlock (self : ExpressDataCache) (client : MockClient) (fails : Bool) (cacheKey : ObjectId)
    (blockIdx : BlockIndex) (blockOffset : UInt64) (bytes : ChecksummedBytes) (objectSize : ℕ) :
    Except DataCacheError Unit × MockClient :=
  if objectSize > self.config.maxObjectSize then (.ok (), client)
  else if blockOffset ≠ blockIdx * self.config.blockSize then (.error .invalidBlockOffset, client)
  else
    let objectKey := getS3Key sha256 self.keyPrefix cacheKey blockIdx
    match bytes.intoInner crc with
    | .error _ => (.error .invalidBlockContent, client)
    | .ok (data, checksum) =>
      let blockMetadata :=
        BlockMetadata.new crc blockIdx blockOffset cacheKey self.config.sourceBucketName checksum
      self.makePutObjectRequest crc client fails blockMetadata.toPutObjectParams objectKey data

/-- `DataCache::get_block` of the cache: `read_block`, and metrics. -/
def getBlock (self : ExpressDataCache) (client : MockClient) (fails : Bool) (cacheKey : ObjectId)
    (blockIdx : BlockIndex) (blockOffset : UInt64) (objectSize : ℕ) :
    Except DataCacheError (Option ChecksummedBytes) :=
  self.readBlock sha256 crc client fails cacheKey blockIdx blockOffset objectSize

/-- `DataCache::put_block` of the cache: `write_block`, and metrics. -/
def putBlock (self : ExpressDataCache) (client : MockClient) (fails : Bool) (cacheKey : ObjectId)
    (blockIdx : BlockIndex) (blockOffset : UInt64) (bytes : ChecksummedBytes) (objectSize : ℕ) :
    Except DataCacheError Unit × MockClient :=
  self.writeBlock sha256 crc client fails cacheKey blockIdx blockOffset bytes objectSize

end ExpressDataCache

/-- The object a successful `write_block` of `bytes` stores: its bytes, the metadata of the block
with their checksum, and that checksum. -/
def storedBlock (sourceBucketName : String) (cacheKey : ObjectId) (blockIdx : BlockIndex)
    (blockOffset : UInt64) (bytes : ChecksummedBytes) : StoredObject :=
  let data := bytes.bufferSlice
  let checksum := crc.checksum data
  ⟨data, (BlockMetadata.new crc blockIdx blockOffset cacheKey sourceBucketName checksum).toPutObjectParams.objectMetadata,
    some (crc32cToBase64 checksum)⟩

end

/-! ## Checking the metadata -/

namespace BlockMetadata

variable {crc : Crc}

theorem validateHeader_eq_ok {headers : List (String × String)} {header : String}
    {isValid : String → Bool} :
    validateHeader headers header isValid = .ok () ↔
      ∃ value, headers.lookup header = some value ∧ isValid value = true := by
  unfold validateHeader
  split
  · rename_i hnone
    simp [hnone]
  · rename_i value hsome
    simp [hsome]

theorem bind_unit_eq_ok {ε : Type} {x y : Except ε Unit} :
    (x >>= fun _ => y) = .ok () ↔ x = .ok () ∧ y = .ok () := by
  cases x <;> simp [bind, Except.bind]

/-- The check passes exactly when each header is present with the value of the block asked for. -/
theorem validateObjectMetadata_eq_ok_iff (self : BlockMetadata) (headers : List (String × String)) :
    self.validateObjectMetadata headers = .ok () ↔
      (∃ v, headers.lookup "cache-version" = some v ∧ v = cacheVersion) ∧
      (∃ v, headers.lookup "block-idx" = some v ∧ Decimal.parseU64 v = some self.blockIdx) ∧
      (∃ v, headers.lookup "block-offset" = some v ∧ Decimal.parseU64 v = some self.blockOffset) ∧
      (∃ v, headers.lookup "etag" = some v ∧ v = self.etag) ∧
      (∃ v, headers.lookup "source-key" = some v ∧
        v = Base64.encodeString (utf8Bytes self.sourceKey)) ∧
      (∃ v, headers.lookup "source-bucket-name" = some v ∧ v = self.sourceBucketName) ∧
      (∃ v, headers.lookup "header-checksum" = some v ∧
        Decimal.parseU32 v = some self.headerChecksum) := by
  simp only [validateObjectMetadata, bind_unit_eq_ok, validateHeader_eq_ok, beq_iff_eq]

/-- Metadata without the version header, such as none at all, fails the check. -/
theorem validateObjectMetadata_of_lookup_eq_none {self : BlockMetadata}
    {headers : List (String × String)} (h : headers.lookup "cache-version" = none) :
    self.validateObjectMetadata headers ≠ .ok () := by
  rw [Ne, validateObjectMetadata_eq_ok_iff]
  rintro ⟨⟨v, hv, -⟩, -⟩
  rw [h] at hv
  cases hv

/-- The metadata written for the block of `new` (`idx'`, `offset'`, `cacheKey'`, `bucket'`)
passes the check of the block asked for only if the two agree on all four, whatever the
checksums. -/
theorem validateObjectMetadata_of_eq_ok {blockIdx blockIdx' : BlockIndex}
    {blockOffset blockOffset' : UInt64} {cacheKey cacheKey' : ObjectId}
    {sourceBucketName sourceBucketName' : String} {dataChecksum dataChecksum' : UInt32}
    (h : (new crc blockIdx blockOffset cacheKey sourceBucketName dataChecksum).validateObjectMetadata
      (new crc blockIdx' blockOffset' cacheKey' sourceBucketName' dataChecksum').toPutObjectParams.objectMetadata =
        .ok ()) :
    blockIdx' = blockIdx ∧ blockOffset' = blockOffset ∧ cacheKey' = cacheKey ∧
      sourceBucketName' = sourceBucketName := by
  rw [validateObjectMetadata_eq_ok_iff] at h
  obtain ⟨-, ⟨v₁, hv₁, hidx⟩, ⟨v₂, hv₂, hoff⟩, ⟨v₃, hv₃, hetag⟩, ⟨v₄, hv₄, hkey⟩, ⟨v₅, hv₅, hbucket⟩,
    -⟩ := h
  simp [toPutObjectParams, List.lookup] at hv₁ hv₂ hv₃ hv₄ hv₅
  subst hv₁ hv₂ hv₃ hv₄ hv₅
  rw [Decimal.parseU64_toString, Option.some_inj] at hidx hoff
  have hkey' : cacheKey'.key = cacheKey.key :=
    utf8Bytes_injective (Base64.encodeString_injective hkey)
  refine ⟨hidx, hoff, ?_, hbucket⟩
  cases cacheKey
  cases cacheKey'
  simp_all [new]

/-- The metadata of a block passes its own check. -/
theorem validateObjectMetadata_self (blockIdx : BlockIndex) (blockOffset : UInt64)
    (cacheKey : ObjectId) (sourceBucketName : String) (dataChecksum : UInt32) :
    (new crc blockIdx blockOffset cacheKey sourceBucketName dataChecksum).validateObjectMetadata
      (new crc blockIdx blockOffset cacheKey sourceBucketName dataChecksum).toPutObjectParams.objectMetadata =
        .ok () := by
  rw [validateObjectMetadata_eq_ok_iff]
  simp [toPutObjectParams, List.lookup, Decimal.parseU64_toString, Decimal.parseU32_toString]

/-- Metadata that passes a check carries the header checksum the check expects. -/
theorem headerChecksum_eq_of_validateObjectMetadata {m m' : BlockMetadata}
    (h : m.validateObjectMetadata m'.toPutObjectParams.objectMetadata = .ok ()) :
    m'.headerChecksum = m.headerChecksum := by
  rw [validateObjectMetadata_eq_ok_iff] at h
  obtain ⟨-, -, -, -, -, -, v, hv, hsum⟩ := h
  simp [toPutObjectParams, List.lookup] at hv
  subst hv
  rwa [Decimal.parseU32_toString, Option.some_inj] at hsum

/-- **The check is equality on constructed metadata.** The metadata written for one block passes
the check of another exactly when both were built from the same index, offset, object, source
bucket and data checksum. The first four are compared header by header. The data checksum is
not a header: it is bound through the header checksum, whose last four bytes it is, for a CRC
that detects every change within four bytes. -/
theorem block_metadata_validates_iff (hd : crc.DetectsWordChange) (blockIdx blockIdx' : BlockIndex)
    (blockOffset blockOffset' : UInt64) (cacheKey cacheKey' : ObjectId)
    (sourceBucketName sourceBucketName' : String) (dataChecksum dataChecksum' : UInt32) :
    (new crc blockIdx' blockOffset' cacheKey' sourceBucketName' dataChecksum').validateObjectMetadata
        (new crc blockIdx blockOffset cacheKey sourceBucketName dataChecksum).toPutObjectParams.objectMetadata =
        .ok () ↔
      (blockIdx, blockOffset, cacheKey, sourceBucketName, dataChecksum) =
        (blockIdx', blockOffset', cacheKey', sourceBucketName', dataChecksum') := by
  constructor
  · intro h
    obtain ⟨rfl, rfl, rfl, rfl⟩ := validateObjectMetadata_of_eq_ok h
    have hsum := headerChecksum_eq_of_validateObjectMetadata h
    have hdata : dataChecksum = dataChecksum' := by
      by_contra hne
      exact hd.checksum_append_beBytes_ne _ hne hsum
    rw [hdata]
  · intro h
    simp only [Prod.mk.injEq] at h
    obtain ⟨rfl, rfl, rfl, rfl, rfl⟩ := h
    exact validateObjectMetadata_self ..

/-- With word sums for the CRC: the metadata of a block with data checksum `1` fails the check of
the same block with data checksum `2`. -/
theorem block_metadata_validates_iff_wordSum :
    wordSum.DetectsWordChange ∧
      ((new wordSum 0 0 ⟨"key", "etag"⟩ "bucket" 2).validateObjectMetadata
          (new wordSum 0 0 ⟨"key", "etag"⟩ "bucket" 1).toPutObjectParams.objectMetadata = .ok () ↔
        ((0 : BlockIndex), (0 : UInt64), (⟨"key", "etag"⟩ : ObjectId), "bucket", (1 : UInt32)) =
          (0, 0, ⟨"key", "etag"⟩, "bucket", 2)) :=
  ⟨wordSum_detectsWordChange,
    block_metadata_validates_iff wordSum_detectsWordChange 0 0 0 0 _ _ "bucket" "bucket" 1 2⟩

end BlockMetadata

/-! ## Reading and writing blocks -/

namespace ExpressDataCache

variable {sha256 : List UInt8 → List UInt8} {crc : Crc}

@[simp] theorem config_new (config : ExpressDataCacheConfig) :
    (new sha256 config).config = config := rfl

theorem okOr_eq_ok {α : Type} {o : Option α} {err : DataCacheError} {a : α} :
    okOr o err = .ok a ↔ o = some a := by
  cases o <;> simp [okOr]

/-- The body loop reassembles the parts the mock streams, on top of what it has read. -/
theorem collectBody_bodyPartsFrom {partSize : ℕ} (hpos : 0 < partSize) :
    ∀ (fuel : ℕ) (buffer bytes : List UInt8), bytes.length ≤ fuel →
      collectBody buffer (MockClient.bodyPartsFrom partSize fuel buffer.length bytes) =
        .ok (buffer ++ bytes)
  | 0, buffer, bytes, h => by
    rw [List.eq_nil_of_length_eq_zero (Nat.le_zero.1 h)]
    simp [MockClient.bodyPartsFrom, collectBody]
  | fuel + 1, buffer, bytes, h => by
    by_cases hnil : bytes = []
    · subst hnil
      simp [MockClient.bodyPartsFrom, collectBody]
    · have hpos' : 0 < bytes.length := List.length_pos_of_ne_nil hnil
      simp only [MockClient.bodyPartsFrom, hnil, if_false, collectBody, ne_eq, not_true_eq_false]
      by_cases hle : partSize ≤ bytes.length
      · -- a whole part: the next one starts `partSize` further on
        have hlen : (buffer ++ bytes.take partSize).length = buffer.length + partSize := by
          simp [hle]
        have := collectBody_bodyPartsFrom hpos fuel (buffer ++ bytes.take partSize)
          (bytes.drop partSize) (by simp; omega)
        rw [hlen] at this
        rw [this, List.append_assoc, List.take_append_drop]
      · -- the last part: nothing is left to stream
        have hdrop : bytes.drop partSize = [] := List.drop_eq_nil_of_le (by omega)
        have hnone : MockClient.bodyPartsFrom partSize fuel (buffer.length + partSize) [] = [] := by
          cases fuel <;> simp [MockClient.bodyPartsFrom]
        rw [hdrop, hnone, collectBody, List.take_of_length_le (by omega)]

/-- A hit is the stored object's bytes with the checksum it was stored with, read after the
block's metadata passed the check. -/
theorem readBlock_eq_some {self : ExpressDataCache} {client : MockClient} {fails : Bool}
    {cacheKey : ObjectId} {blockIdx : BlockIndex} {blockOffset : UInt64} {objectSize : ℕ}
    {hit : ChecksummedBytes}
    (h : self.readBlock sha256 crc client fails cacheKey blockIdx blockOffset objectSize = .ok (some hit)) :
    objectSize ≤ self.config.maxObjectSize ∧ blockOffset = blockIdx * self.config.blockSize ∧
      ∃ object crc32cB64 crc32c,
        client.objects (getS3Key sha256 self.keyPrefix cacheKey blockIdx) = some object ∧
        object.checksumCrc32c = some crc32cB64 ∧ crc32cFromBase64 crc32cB64 = some crc32c ∧
        (BlockMetadata.new crc blockIdx blockOffset cacheKey self.config.sourceBucketName
          crc32c).validateObjectMetadata object.objectMetadata = .ok () ∧
        hit = ChecksummedBytes.newFromInnerData object.bytes crc32c := by
  unfold readBlock at h
  by_cases hsize : objectSize > self.config.maxObjectSize
  · rw [if_pos hsize] at h
    cases h
  rw [if_neg hsize] at h
  by_cases hoff : blockOffset ≠ blockIdx * self.config.blockSize
  · rw [if_pos hoff] at h
    cases h
  rw [if_neg hoff] at h
  refine ⟨Nat.le_of_not_lt hsize, not_not.1 hoff, ?_⟩
  dsimp only at h
  split at h
  · cases h
  · cases h
  · rename_i result hget
    obtain ⟨-, -, object, hobject, rfl⟩ := MockClient.getObject_eq_ok hget
    have hbody := collectBody_bodyPartsFrom client.partSize_pos object.bytes.length [] object.bytes le_rfl
    rw [List.length_nil, List.nil_append] at hbody
    obtain ⟨buffer, hbuffer, h⟩ := except_bind_eq_ok h
    dsimp only at hbuffer h
    rw [hbody] at hbuffer
    cases hbuffer
    obtain ⟨crc32cB64, hb64, h⟩ := except_bind_eq_ok h
    obtain ⟨crc32c, hcrc, h⟩ := except_bind_eq_ok h
    obtain ⟨u, hvalid, h⟩ := except_bind_eq_ok h
    cases h
    exact ⟨object, crc32cB64, crc32c, hobject, okOr_eq_ok.1 hb64, okOr_eq_ok.1 hcrc, hvalid, rfl⟩

/-- A block stored by `write_block` is read back whole, with the checksum of its bytes, by any cache
of the same source bucket that asks for it with the same offset. -/
theorem readBlock_storedBlock {self : ExpressDataCache} {client : MockClient} {cacheKey : ObjectId}
    {blockIdx : BlockIndex} {blockOffset : UInt64} {objectSize : ℕ} {bytes : ChecksummedBytes}
    (hsize : objectSize ≤ self.config.maxObjectSize)
    (hoff : blockOffset = blockIdx * self.config.blockSize) (hbucket : self.config.bucketName = client.bucket)
    (hobject : client.objects (getS3Key sha256 self.keyPrefix cacheKey blockIdx) =
      some (storedBlock crc self.config.sourceBucketName cacheKey blockIdx blockOffset bytes)) :
    self.readBlock sha256 crc client false cacheKey blockIdx blockOffset objectSize =
      .ok (some (ChecksummedBytes.newFromInnerData bytes.bufferSlice (crc.checksum bytes.bufferSlice))) := by
  have hbody := collectBody_bodyPartsFrom client.partSize_pos bytes.bufferSlice.length []
    bytes.bufferSlice le_rfl
  rw [List.length_nil, List.nil_append] at hbody
  simp only [readBlock, MockClient.getObject, hobject, hbucket, storedBlock, hoff, hbody,
    gt_iff_lt, not_lt.2 hsize, ne_eq, not_true_eq_false, if_false, Bool.false_eq_true, okOr, bind,
    Except.bind, crc32cFromBase64_crc32cToBase64, BlockMetadata.validateObjectMetadata_self, pure,
    Except.pure]

/-- A put request fails and leaves the bucket as it was, or stores its object. -/
theorem makePutObjectRequest_cases (self : ExpressDataCache) (client : MockClient) (fails : Bool)
    (params : PutObjectSingleParams) (objectKey : String) (data : List UInt8) :
    (∃ e, self.makePutObjectRequest crc client fails params objectKey data = (.error e, client)) ∨
      (self.config.bucketName = client.bucket ∧ (∀ c ∈ params.checksum, c = crc.checksum data) ∧
        self.makePutObjectRequest crc client fails params objectKey data =
          (.ok (), { client with
            objects := Function.update client.objects objectKey
              (some ⟨data, params.objectMetadata, params.checksum.map crc32cToBase64⟩) })) := by
  unfold makePutObjectRequest
  split
  · exact .inl ⟨_, rfl⟩
  · rename_i client' hput
    obtain ⟨-, hbucket, hsum, rfl⟩ := MockClient.putObjectSingle_eq_ok hput
    exact .inr ⟨hbucket, hsum, rfl⟩

/-- A put fails and leaves the bucket as it was, skips an object over the size limit, or stores
the block's object under its key. -/
theorem writeBlock_cases (self : ExpressDataCache) (client : MockClient) (fails : Bool)
    (cacheKey : ObjectId) (blockIdx : BlockIndex) (blockOffset : UInt64) (bytes : ChecksummedBytes)
    (objectSize : ℕ) :
    (∃ e, self.writeBlock sha256 crc client fails cacheKey blockIdx blockOffset bytes objectSize =
        (.error e, client)) ∨
      (self.config.maxObjectSize < objectSize ∧
        self.writeBlock sha256 crc client fails cacheKey blockIdx blockOffset bytes objectSize =
          (.ok (), client)) ∨
      (objectSize ≤ self.config.maxObjectSize ∧ blockOffset = blockIdx * self.config.blockSize ∧
        self.config.bucketName = client.bucket ∧
        self.writeBlock sha256 crc client fails cacheKey blockIdx blockOffset bytes objectSize =
          (.ok (), { client with
            objects := Function.update client.objects (getS3Key sha256 self.keyPrefix cacheKey blockIdx)
              (some (storedBlock crc self.config.sourceBucketName cacheKey blockIdx blockOffset bytes)) })) := by
  unfold writeBlock
  by_cases hsize : objectSize > self.config.maxObjectSize
  · exact .inr (.inl ⟨hsize, by rw [if_pos hsize]⟩)
  rw [if_neg hsize]
  by_cases hoff : blockOffset ≠ blockIdx * self.config.blockSize
  · exact .inl ⟨_, by rw [if_pos hoff]⟩
  rw [if_neg hoff]
  dsimp only
  split
  · exact .inl ⟨_, rfl⟩
  · rename_i data checksum hinner
    rcases makePutObjectRequest_cases self client fails
      (BlockMetadata.new crc blockIdx blockOffset cacheKey self.config.sourceBucketName checksum).toPutObjectParams
      (getS3Key sha256 self.keyPrefix cacheKey blockIdx) data with ⟨e, he⟩ | ⟨hbucket, hsum, hput⟩
    · exact .inl ⟨e, he⟩
    · have hdata : data = bytes.bufferSlice := ChecksummedBytes.intoInner_fst hinner
      have hchecksum : checksum = crc.checksum data := hsum checksum rfl
      subst hdata hchecksum
      exact .inr (.inr ⟨Nat.le_of_not_lt hsize, not_not.1 hoff, hbucket, hput⟩)

/-- `verify_cache_valid` fails and leaves the bucket as it was, or stores an object without
metadata. -/
theorem verifyCacheValid_cases (self : ExpressDataCache) (client : MockClient) (fails : Bool) :
    (∃ e, self.verifyCacheValid crc client fails = (.error e, client)) ∨
      ∃ data, self.verifyCacheValid crc client fails =
        (.ok (), { client with
          objects := Function.update client.objects (self.keyPrefix ++ "/_mountpoint_cache_metadata")
            (some ⟨data, [], none⟩) }) := by
  unfold verifyCacheValid
  rcases @makePutObjectRequest_cases crc self client fails ⟨[], none⟩ _ _ with h | ⟨-, -, h⟩
  · exact .inl h
  · exact .inr ⟨_, h⟩

end ExpressDataCache

end MountpointS3.DataCache.Express
