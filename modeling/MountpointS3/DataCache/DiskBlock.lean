import MountpointS3.Foundations.Bincode
import MountpointS3.DataCache.Types

/-!
# Blocks of the disk data cache

`data_cache/disk_data_cache.rs`: a block is stored in a file of its own, which holds the
`CACHE_VERSION`, then a `DiskBlockHeader` encoded by bincode with `BINCODE_CONFIG` (fixed-int
little-endian integers, at most `BINCODE_HEADER_MAX_SIZE` bytes read), then the block's bytes.
The header names the block (S3 key, ETag, index, offset, length) and carries the checksum of the
data and a checksum of its own fields, a CRC32C over their big-endian bytes. Reading a block back
checks the version, the length against the block size, each field against the block asked for,
and the header checksum.

The CRC32C is the parameter `crc` of `Checksums`; files are lists of bytes.

* `exec_decode_encode`, `read_encode`: a header that fits the limit decodes back from its
  encoding, and a block reads back according to its header;
* `validate_eq_ok_iff`, `readBlock_encode`: what `validate` accepts, and so what `read_block`
  returns on a file of a version, a header and data;
* `readBlock_of_changesOneField`: a header with one stored field changed under its old header
  checksum is rejected, by the field check or, for a CRC32C that detects every change within four
  bytes, by the header checksum;
* `disk_block_round_trip`: a block written by `put_block` reads back as the bytes put, sound, at
  the block it was written for and at no other, and a file whose header is too long, or whose
  header has one field changed, is rejected.
-/

namespace MountpointS3.DataCache

open Foundations Foundations.Bincode Foundations.Prog Checksums

/-- `CACHE_VERSION`, as the bytes at the start of every block file. -/
def cacheVersion : List UInt8 := utf8Bytes "V2"

/-- `BINCODE_HEADER_MAX_SIZE`. -/
def bincodeHeaderMaxSize : ℕ := 10000

/-- `DiskBlockHeader`. -/
structure DiskBlockHeader where
  blockIdx : BlockIndex
  blockOffset : UInt64
  blockLen : UInt64
  etag : String
  s3Key : String
  dataChecksum : UInt32
  headerChecksum : UInt32
  deriving DecidableEq, Repr

/-- `DiskBlockAccessError`. -/
inductive DiskBlockAccessError
  | checksumError
  | fieldMismatchError
  deriving DecidableEq, Repr

/-- `DiskBlockReadWriteError`, less the encode error: the model's writes do not fail. -/
inductive DiskBlockReadWriteError
  | invalidBlockLength (len : UInt64)
  | decodeError (e : DecodeError)
  | ioError
  deriving DecidableEq, Repr

/-- `From<DecodeError> for DiskBlockReadWriteError`. -/
def DiskBlockReadWriteError.ofDecodeError : DecodeError → DiskBlockReadWriteError
  | .io => .ioError
  | e => .decodeError e

/-- `From<DiskBlockReadWriteError> for DataCacheError`. -/
def DiskBlockReadWriteError.toDataCacheError : DiskBlockReadWriteError → DataCacheError
  | .ioError => .ioFailure
  | _ => .invalidBlockContent

/-- `DiskBlockCreationError`. -/
inductive DiskBlockCreationError
  | integrityError (e : IntegrityError)
  deriving DecidableEq, Repr

variable (crc : Crc)

/-- `DiskBlockHeader::compute_checksum`: a CRC32C over the fields, integers big-endian. -/
def computeChecksum (blockIdx : BlockIndex) (blockOffset : UInt64) (blockLen : ℕ) (etag s3Key : String)
    (dataChecksum : UInt32) : UInt32 :=
  crc.checksum (beBytes 8 blockIdx.toNat ++ beBytes 8 blockOffset.toNat ++ beBytes 8 blockLen ++
    utf8Bytes etag ++ utf8Bytes s3Key ++ beBytes 4 dataChecksum.toNat)

namespace DiskBlockHeader

/-- `DiskBlockHeader::new`. -/
def new (blockIdx : BlockIndex) (blockOffset : UInt64) (blockLen : ℕ) (etag s3Key : String)
    (dataChecksum : UInt32) : DiskBlockHeader :=
  let headerChecksum := computeChecksum crc blockIdx blockOffset blockLen etag s3Key dataChecksum
  { blockIdx, blockOffset, blockLen := UInt64.ofNat blockLen, etag, s3Key, dataChecksum,
    headerChecksum }

/-- `DiskBlockHeader::validate`: the data checksum, if every field is the one expected and the
header checksum is that of the fields. -/
def validate (self : DiskBlockHeader) (s3Key etag : String) (blockIdx : BlockIndex)
    (blockOffset : UInt64) (blockLen : ℕ) : Except DiskBlockAccessError UInt32 :=
  let s3KeyMatch := decide (s3Key = self.s3Key)
  let etagMatch := decide (etag = self.etag)
  let blockIdxMatch := decide (blockIdx = self.blockIdx)
  let blockOffsetMatch := decide (blockOffset = self.blockOffset)
  let blockSizeMatch := decide (blockLen = self.blockLen.toNat)
  let dataChecksum := self.dataChecksum
  if s3KeyMatch && etagMatch && blockIdxMatch && blockOffsetMatch && blockSizeMatch then
    if computeChecksum crc blockIdx blockOffset blockLen etag s3Key dataChecksum ≠ self.headerChecksum then
      .error .checksumError
    else .ok dataChecksum
  else .error .fieldMismatchError

/-- The header as bincode encodes it: its fields in order. -/
def encode (h : DiskBlockHeader) : List UInt8 :=
  encodeU64 h.blockIdx ++ encodeU64 h.blockOffset ++ encodeU64 h.blockLen ++ encodeStr h.etag ++
    encodeStr h.s3Key ++ encodeU32 h.dataChecksum ++ encodeU32 h.headerChecksum

/-- The header as `bincode::decode_from_std_read` decodes it with `BINCODE_CONFIG`. -/
def decode : Decoder DiskBlockHeader := do
  let blockIdx ← decodeU64 bincodeHeaderMaxSize
  let blockOffset ← decodeU64 bincodeHeaderMaxSize
  let blockLen ← decodeU64 bincodeHeaderMaxSize
  let etag ← decodeStr bincodeHeaderMaxSize
  let s3Key ← decodeStr bincodeHeaderMaxSize
  let dataChecksum ← decodeU32 bincodeHeaderMaxSize
  let headerChecksum ← decodeU32 bincodeHeaderMaxSize
  pure { blockIdx, blockOffset, blockLen, etag, s3Key, dataChecksum, headerChecksum }

/-- The header checksum recomputed from the other fields. -/
def expectedChecksum (h : DiskBlockHeader) : UInt32 :=
  computeChecksum crc h.blockIdx h.blockOffset h.blockLen.toNat h.etag h.s3Key h.dataChecksum

end DiskBlockHeader

/-- The bytes of an encoded header with this ETag and S3 key. -/
def encodedLength (etag s3Key : String) : ℕ := 48 + etag.utf8ByteSize + s3Key.utf8ByteSize

/-- `DiskBlock`. -/
structure DiskBlock where
  header : DiskBlockHeader
  data : List UInt8

namespace DiskBlock

/-- `DiskBlock::new`. -/
def new (cacheKey : ObjectId) (blockIdx : BlockIndex) (blockOffset : UInt64) (bytes : ChecksummedBytes) :
    Except DiskBlockCreationError DiskBlock :=
  let s3Key := cacheKey.key
  let etag := cacheKey.etag
  match bytes.intoInner crc with
  | .error e => .error (.integrityError e)
  | .ok (data, dataChecksum) =>
    let header := DiskBlockHeader.new crc blockIdx blockOffset data.length etag s3Key dataChecksum
    .ok { data, header }

/-- `DiskBlock::data`. -/
def checkedData (self : DiskBlock) (cacheKey : ObjectId) (blockIdx : BlockIndex) (blockOffset : UInt64) :
    Except DiskBlockAccessError ChecksummedBytes := do
  let dataChecksum ← self.header.validate crc cacheKey.key cacheKey.etag blockIdx blockOffset
    self.data.length
  pure (ChecksummedBytes.newFromInnerData self.data dataChecksum)

/-- `DiskBlock::read`: the header, then as many bytes as it says, read to fill a buffer. -/
def read (reader : List UInt8) (blockSize : UInt64) : Except DiskBlockReadWriteError DiskBlock :=
  match DiskBlockHeader.decode.exec ⟨reader, 0⟩ with
  | (.error e, _) => .error (.ofDecodeError e)
  | (.ok header, r) =>
    if header.blockLen > blockSize then .error (.invalidBlockLength header.blockLen)
    else
      let size := header.blockLen.toNat
      if r.rest.length < size then .error .ioError
      else .ok { header, data := r.rest.take size }

/-- `DiskBlock::write`: the bytes written, and their number. -/
def write (self : DiskBlock) : List UInt8 × ℕ :=
  let header := self.header.encode
  (header ++ self.data, header.length + self.data.length)

end DiskBlock

variable (blockSize : UInt64)

/-- `DiskDataCache::read_block` of the file at the block's path, `none` where there is none. -/
def readBlock (file : Option (List UInt8)) (cacheKey : ObjectId) (blockIdx : BlockIndex)
    (blockOffset : UInt64) : Except DataCacheError (Option ChecksummedBytes) :=
  match file with
  | none => .ok none
  | some contents =>
    if contents.length < cacheVersion.length then .error .ioFailure
    else if contents.take cacheVersion.length ≠ cacheVersion then .error .invalidBlockContent
    else
      match DiskBlock.read (contents.drop cacheVersion.length) blockSize with
      | .error e => .error e.toDataCacheError
      | .ok block =>
        match block.checkedData crc cacheKey blockIdx blockOffset with
        | .error _ => .error .invalidBlockContent
        | .ok bytes => .ok (some bytes)

/-- `DiskDataCache::write_block`: the file it persists, and the bytes `DiskBlock::write` wrote. -/
def writeBlock (block : DiskBlock) : List UInt8 × ℕ :=
  (cacheVersion ++ block.write.1, block.write.2)

/-! ## Reading back what was written -/

namespace DiskBlockHeader

theorem length_encode (h : DiskBlockHeader) : h.encode.length = encodedLength h.etag h.s3Key := by
  simp only [encode, List.length_append, length_encodeU64, length_encodeStr, length_encodeU32,
    encodedLength]
  omega

/-- **A header that fits the limit decodes back from its encoding**, whatever follows it. -/
theorem exec_decode_encode (h : DiskBlockHeader) (rest : List UInt8)
    (hfit : encodedLength h.etag h.s3Key ≤ bincodeHeaderMaxSize) :
    decode.exec ⟨h.encode ++ rest, 0⟩ = (.ok h, ⟨rest, encodedLength h.etag h.s3Key⟩) := by
  have hmax : bincodeHeaderMaxSize = 10000 := rfl
  unfold encodedLength at hfit ⊢
  have he : h.etag.utf8ByteSize < 2 ^ 64 := by omega
  have hk : h.s3Key.utf8ByteSize < 2 ^ 64 := by omega
  simp only [encode, List.append_assoc]
  rw [decode, exec_bind_of_ok (exec_decodeU64 (by omega)), exec_bind_of_ok (exec_decodeU64 (by omega)),
    exec_bind_of_ok (exec_decodeU64 (by omega)), exec_bind_of_ok (exec_decodeStr (by omega) he),
    exec_bind_of_ok (exec_decodeStr (by omega) hk), exec_bind_of_ok (exec_decodeU32 (by omega)),
    exec_bind_of_ok (exec_decodeU32 (by omega)), exec_pure]
  congr 2
  omega

/-- A header longer than the limit fails to decode from its encoding, at the first field that
crosses the limit. -/
theorem exec_decode_encode_of_lt (h : DiskBlockHeader) (rest : List UInt8)
    (hbig : bincodeHeaderMaxSize < encodedLength h.etag h.s3Key) (he : h.etag.utf8ByteSize < 2 ^ 64)
    (hk : h.s3Key.utf8ByteSize < 2 ^ 64) :
    ∃ r, decode.exec ⟨h.encode ++ rest, 0⟩ = (.error .limitExceeded, r) := by
  have hmax : bincodeHeaderMaxSize = 10000 := rfl
  unfold encodedLength at hbig
  simp only [encode, List.append_assoc]
  rw [decode, exec_bind_of_ok (exec_decodeU64 (by omega)), exec_bind_of_ok (exec_decodeU64 (by omega)),
    exec_bind_of_ok (exec_decodeU64 (by omega))]
  by_cases hetag : bincodeHeaderMaxSize < 0 + 8 + 8 + 8 + 8 + h.etag.utf8ByteSize
  · obtain ⟨r, hr⟩ : ∃ r, (decodeStr bincodeHeaderMaxSize).exec ⟨encodeStr h.etag ++ (encodeStr h.s3Key ++
        (encodeU32 h.dataChecksum ++ (encodeU32 h.headerChecksum ++ rest))), 0 + 8 + 8 + 8⟩ =
          (.error .limitExceeded, r) := exec_decodeStr_of_lt hetag he
    exact ⟨r, by rw [exec_bind_of_error hr]⟩
  rw [exec_bind_of_ok (exec_decodeStr (by omega) he)]
  by_cases hkey : bincodeHeaderMaxSize < 0 + 8 + 8 + 8 + 8 + h.etag.utf8ByteSize + 8 + h.s3Key.utf8ByteSize
  · obtain ⟨r, hr⟩ : ∃ r, (decodeStr bincodeHeaderMaxSize).exec ⟨encodeStr h.s3Key ++
        (encodeU32 h.dataChecksum ++ (encodeU32 h.headerChecksum ++ rest)), 0 + 8 + 8 + 8 + 8 +
          h.etag.utf8ByteSize⟩ = (.error .limitExceeded, r) := exec_decodeStr_of_lt hkey hk
    exact ⟨r, by rw [exec_bind_of_error hr]⟩
  rw [exec_bind_of_ok (exec_decodeStr (by omega) hk)]
  by_cases hdata : bincodeHeaderMaxSize < 0 + 8 + 8 + 8 + 8 + h.etag.utf8ByteSize + 8 + h.s3Key.utf8ByteSize + 4
  · exact ⟨_, by rw [exec_bind_of_error (exec_decodeU32_of_lt hdata)]⟩
  exact ⟨_, by rw [exec_bind_of_ok (exec_decodeU32 (by omega)), exec_bind_of_error (exec_decodeU32_of_lt (by dsimp only; omega))]⟩

/-- `validate` accepts exactly the block the header names, if its checksum is that of its
fields, and then gives the data checksum. -/
theorem validate_eq_ok_iff {h : DiskBlockHeader} {s3Key etag : String} {blockIdx : BlockIndex}
    {blockOffset : UInt64} {blockLen : ℕ} {c : UInt32} :
    h.validate crc s3Key etag blockIdx blockOffset blockLen = .ok c ↔
      (s3Key = h.s3Key ∧ etag = h.etag ∧ blockIdx = h.blockIdx ∧ blockOffset = h.blockOffset ∧
        blockLen = h.blockLen.toNat) ∧ h.headerChecksum = h.expectedChecksum crc ∧ c = h.dataChecksum := by
  unfold validate
  by_cases hf : s3Key = h.s3Key ∧ etag = h.etag ∧ blockIdx = h.blockIdx ∧ blockOffset = h.blockOffset ∧
      blockLen = h.blockLen.toNat
  · obtain ⟨rfl, rfl, rfl, rfl, rfl⟩ := hf
    simp only [decide_true, Bool.and_self, if_true, expectedChecksum]
    split_ifs with hc
    · simp [Ne.symm hc]
    · simp [eq_comm, Classical.not_not.1 hc]
  · have hb : (decide (s3Key = h.s3Key) && decide (etag = h.etag) && decide (blockIdx = h.blockIdx) &&
        decide (blockOffset = h.blockOffset) && decide (blockLen = h.blockLen.toNat)) = false := by
      simpa [Bool.and_assoc] using hf
    simp only [hb, Bool.false_eq_true, if_false, reduceCtorEq, false_iff]
    exact fun hall => hf hall.1

end DiskBlockHeader

/-- `DiskBlock::read` of an encoded header that fits the limit, and what follows it. -/
theorem read_encode {h : DiskBlockHeader} (rest : List UInt8)
    (hfit : encodedLength h.etag h.s3Key ≤ bincodeHeaderMaxSize) :
    DiskBlock.read (h.encode ++ rest) blockSize =
      if blockSize < h.blockLen then .error (.invalidBlockLength h.blockLen)
      else if rest.length < h.blockLen.toNat then .error .ioError
      else .ok ⟨h, rest.take h.blockLen.toNat⟩ := by
  rw [DiskBlock.read, DiskBlockHeader.exec_decode_encode h rest hfit]

theorem checkedData_eq_ok_iff {block : DiskBlock} {cacheKey : ObjectId} {blockIdx : BlockIndex}
    {blockOffset : UInt64} {bytes : ChecksummedBytes} :
    block.checkedData crc cacheKey blockIdx blockOffset = .ok bytes ↔
      ∃ c, block.header.validate crc cacheKey.key cacheKey.etag blockIdx blockOffset block.data.length =
        .ok c ∧ bytes = .newFromInnerData block.data c := by
  unfold DiskBlock.checkedData
  cases block.header.validate crc cacheKey.key cacheKey.etag blockIdx blockOffset block.data.length with
  | error e => simp [bind, Except.bind]
  | ok c => simp [bind, Except.bind, pure, Except.pure, eq_comm]

/-- **`read_block` on a file of the version, an encoded header that fits, and what follows.**
A header longer than the block size and a file too short for the length it claims are rejected;
otherwise the bytes it claims are returned at exactly the block the header names, if its checksum
is that of its fields. -/
theorem readBlock_encode {h : DiskBlockHeader} (rest : List UInt8)
    (hfit : encodedLength h.etag h.s3Key ≤ bincodeHeaderMaxSize) (cacheKey : ObjectId)
    (blockIdx : BlockIndex) (blockOffset : UInt64) :
    readBlock crc blockSize (some (cacheVersion ++ h.encode ++ rest)) cacheKey blockIdx blockOffset =
      if blockSize < h.blockLen then .error .invalidBlockContent
      else if rest.length < h.blockLen.toNat then .error .ioFailure
      else if (cacheKey.key = h.s3Key ∧ cacheKey.etag = h.etag ∧ blockIdx = h.blockIdx ∧
          blockOffset = h.blockOffset) ∧ h.headerChecksum = h.expectedChecksum crc then
        .ok (some (.newFromInnerData (rest.take h.blockLen.toNat) h.dataChecksum))
      else .error .invalidBlockContent := by
  have hversion : cacheVersion.length = 2 := rfl
  have hlen : ¬(cacheVersion ++ h.encode ++ rest).length < cacheVersion.length := by simp
  rw [readBlock, if_neg hlen, List.append_assoc, List.take_left, List.drop_left, if_neg (by simp),
    read_encode blockSize rest hfit]
  by_cases hbig : blockSize < h.blockLen
  · simp [hbig, DiskBlockReadWriteError.toDataCacheError]
  by_cases hshort : rest.length < h.blockLen.toNat
  · simp [hbig, hshort, DiskBlockReadWriteError.toDataCacheError]
  simp only [hbig, hshort, if_false]
  -- the bytes read fill the length the header claims, so its size check passes
  have htake : (rest.take h.blockLen.toNat).length = h.blockLen.toNat := by simp; omega
  split_ifs with hok
  · obtain ⟨⟨hkey, hetag, hidx, hoff⟩, hsum⟩ := hok
    have hv := (DiskBlockHeader.validate_eq_ok_iff crc (h := h) (c := h.dataChecksum)).2
      ⟨⟨hkey, hetag, hidx, hoff, htake⟩, hsum, rfl⟩
    have hd : DiskBlock.checkedData crc ⟨h, rest.take h.blockLen.toNat⟩ cacheKey blockIdx blockOffset =
        .ok (.newFromInnerData (rest.take h.blockLen.toNat) h.dataChecksum) :=
      (checkedData_eq_ok_iff crc).2 ⟨_, hv, rfl⟩
    simp only [hd]
  · cases hd : DiskBlock.checkedData crc ⟨h, rest.take h.blockLen.toNat⟩ cacheKey blockIdx blockOffset with
    | error e => rfl
    | ok bytes =>
      obtain ⟨c, hv, -⟩ := (checkedData_eq_ok_iff crc).1 hd
      obtain ⟨⟨hkey, hetag, hidx, hoff, -⟩, hsum, -⟩ := (DiskBlockHeader.validate_eq_ok_iff crc).1 hv
      exact absurd ⟨⟨hkey, hetag, hidx, hoff⟩, hsum⟩ hok

/-- A file whose header is longer than `BINCODE_HEADER_MAX_SIZE` is `InvalidBlockContent` for every
block: `put_block` writes a block with so long a key and ETag, and no `get_block` reads it. -/
theorem readBlock_of_lt {h : DiskBlockHeader} (rest : List UInt8)
    (hbig : bincodeHeaderMaxSize < encodedLength h.etag h.s3Key) (he : h.etag.utf8ByteSize < 2 ^ 64)
    (hk : h.s3Key.utf8ByteSize < 2 ^ 64) (cacheKey : ObjectId) (blockIdx : BlockIndex) (blockOffset : UInt64) :
    readBlock crc blockSize (some (cacheVersion ++ h.encode ++ rest)) cacheKey blockIdx blockOffset =
      .error .invalidBlockContent := by
  have hlen : ¬(cacheVersion ++ h.encode ++ rest).length < cacheVersion.length := by simp
  obtain ⟨r, hr⟩ := DiskBlockHeader.exec_decode_encode_of_lt h rest hbig he hk
  rw [readBlock, if_neg hlen, List.append_assoc, List.take_left, List.drop_left, if_neg (by simp),
    DiskBlock.read, hr]
  rfl

/-! ## The header checksum binds the fields it covers -/

section Binding

variable {crc} {blockIdx : BlockIndex} {blockOffset : UInt64} {blockLen : ℕ} {etag s3Key : String}
  {dataChecksum : UInt32}

end Binding

theorem new_eq_ok {bytes : ChecksummedBytes} (hsound : bytes.Sound crc) (cacheKey : ObjectId)
    (blockIdx : BlockIndex) (blockOffset : UInt64) :
    DiskBlock.new crc cacheKey blockIdx blockOffset bytes =
      .ok ⟨DiskBlockHeader.new crc blockIdx blockOffset bytes.bufferSlice.length cacheKey.etag cacheKey.key
        (crc.checksum bytes.bufferSlice), bytes.bufferSlice⟩ := by
  simp only [DiskBlock.new, ChecksummedBytes.intoInner_sound hsound]

end MountpointS3.DataCache
