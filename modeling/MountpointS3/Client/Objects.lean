import MountpointS3.Client
import MountpointS3.Checksums
import MountpointS3.Foundations.Encoding
import MountpointS3.Foundations.Bincode

/-!
# Objects of the mock client: PutObject and GetObject

The part of `MockClient` the S3 Express cache talks to: `put_object_single` stores an object
with its user metadata and, after checking it against the data, its CRC32C checksum;
`get_object` streams the object back in parts of `part_size` bytes, with the metadata and the
checksum. A request may fail in the `FailureClient` around the mock, before the mock sees it.
Checksums travel as the base64 of their big-endian bytes.

* `crc32cFromBase64_crc32cToBase64`: the checksum reads back from its base64;
* `putObjectSingle_eq_ok`: a put that succeeds stores the object, checksum and all, and its
  checksum was the one of the data;
* `getObject_eq_ok`: a get that succeeds streams the stored object.
-/

namespace MountpointS3.Client

open Foundations

/-- `crc32c_to_base64`. -/
def crc32cToBase64 (checksum : UInt32) : String := Base64.encodeString (beBytes 4 checksum.toNat)

/-- `crc32c_from_base64`: `Base64::decode` into a buffer of four zero bytes, read big-endian;
`none` for its `ParseError`. -/
def crc32cFromBase64 (base64Str : String) : Option UInt32 :=
  match Base64.decode base64Str.toList with
  | none => none
  | some bytes =>
    if bytes.length ≤ 4 then
      some (UInt32.ofNat (ofLeBytes (bytes ++ List.replicate (4 - bytes.length) 0).reverse))
    else none

/-- `PutObjectError`, as the mock returns it. -/
inductive PutObjectError
  | noSuchBucket
  | badChecksum
  deriving DecidableEq, Repr

/-- `GetObjectError`, as the mock returns it. -/
inductive GetObjectError
  | noSuchBucket
  | noSuchKey
  deriving DecidableEq, Repr

/-- `PutObjectSingleParams`, by the fields the S3 Express cache sets: the user metadata and a
CRC32C `UploadChecksum`. -/
structure PutObjectSingleParams where
  objectMetadata : List (String × String)
  checksum : Option UInt32

/-- A `MockObject` by what `put_object_single` sets and `get_object` returns: the bytes, the user
metadata and the CRC32C in base64. -/
structure StoredObject where
  bytes : List UInt8
  objectMetadata : List (String × String)
  checksumCrc32c : Option String

/-- `GetBodyPart`. -/
structure GetBodyPart where
  offset : ℕ
  data : List UInt8

/-- The bucket of a `MockClient`, its part size, and its objects by key. -/
structure MockClient where
  bucket : String
  partSize : ℕ
  partSize_pos : 0 < partSize
  objects : String → Option StoredObject

namespace MockClient

variable (crc : Checksums.Crc)

/-- `validate_checksum`: the checksum to store, if the one provided is that of the contents. -/
def validateChecksum (contents : List UInt8) (uploadChecksum : Option UInt32) :
    Except PutObjectError (Option String) :=
  let contentChecksum := uploadChecksum.map fun _ => crc32cToBase64 (crc.checksum contents)
  let providedChecksum := uploadChecksum.map crc32cToBase64
  if providedChecksum ≠ contentChecksum then .error .badChecksum else .ok providedChecksum

/-- `put_object_single`, behind a `FailureClient` that fails the request when `fails`. -/
def putObjectSingle (client : MockClient) (fails : Bool) (bucket key : String)
    (params : PutObjectSingleParams) (contents : List UInt8) :
    Except (ObjectClientError PutObjectError) MockClient :=
  if fails then .error .clientError
  else if bucket ≠ client.bucket then .error (.serviceError .noSuchBucket)
  else
    match validateChecksum crc contents params.checksum with
    | .error e => .error (.serviceError e)
    | .ok checksum =>
      let object : StoredObject := ⟨contents, params.objectMetadata, checksum⟩
      .ok { client with objects := Function.update client.objects key (some object) }

/-- The parts `MockGetObjectResponse` streams: `part_size` bytes at a time from `offset`, while
`fuel` lasts; `bytes.length` is enough. -/
def bodyPartsFrom (partSize : ℕ) : ℕ → ℕ → List UInt8 → List GetBodyPart
  | 0, _, _ => []
  | fuel + 1, offset, bytes =>
    if bytes = [] then []
    else ⟨offset, bytes.take partSize⟩ :: bodyPartsFrom partSize fuel (offset + partSize) (bytes.drop partSize)

/-- What a `MockGetObjectResponse` gives: the body parts, the user metadata and the checksum. -/
structure GetObjectResponse where
  parts : List GetBodyPart
  objectMetadata : List (String × String)
  checksumCrc32c : Option String

/-- `get_object` of a whole object, behind a `FailureClient` that fails the request, or its body
stream, when `fails`. -/
def getObject (client : MockClient) (fails : Bool) (bucket key : String) :
    Except (ObjectClientError GetObjectError) GetObjectResponse :=
  if fails then .error .clientError
  else if bucket ≠ client.bucket then .error (.serviceError .noSuchBucket)
  else
    match client.objects key with
    | none => .error (.serviceError .noSuchKey)
    | some object =>
      .ok ⟨bodyPartsFrom client.partSize object.bytes.length 0 object.bytes, object.objectMetadata,
        object.checksumCrc32c⟩

end MockClient

/-! ### Checksums in base64 -/

theorem crc32cFromBase64_crc32cToBase64 (checksum : UInt32) :
    crc32cFromBase64 (crc32cToBase64 checksum) = some checksum := by
  have hlt : checksum.toNat < 256 ^ 4 := checksum.toNat_lt_size
  simp only [crc32cFromBase64, crc32cToBase64, Base64.encodeString, String.toList_ofList,
    Base64.decode_encode, length_beBytes, le_refl, if_true, Nat.sub_self, List.replicate_zero,
    List.append_nil]
  rw [beBytes, List.reverse_reverse, ofLeBytes_leBytes, Nat.mod_eq_of_lt hlt, UInt32.ofNat_toNat]

theorem crc32cToBase64_injective : Function.Injective crc32cToBase64 := fun a b h => by
  have := congrArg crc32cFromBase64 h
  rwa [crc32cFromBase64_crc32cToBase64, crc32cFromBase64_crc32cToBase64, Option.some_inj] at this

namespace MockClient

variable {crc : Checksums.Crc}

theorem validateChecksum_eq_ok {contents : List UInt8} {uploadChecksum : Option UInt32}
    {checksum : Option String} (h : validateChecksum crc contents uploadChecksum = .ok checksum) :
    checksum = uploadChecksum.map crc32cToBase64 ∧ ∀ c ∈ uploadChecksum, c = crc.checksum contents := by
  unfold validateChecksum at h
  dsimp only at h
  split_ifs at h with hsame
  cases h
  refine ⟨rfl, fun c hc => ?_⟩
  rw [Option.mem_def] at hc
  subst hc
  simpa using crc32cToBase64_injective (by simpa using hsame)

/-- A put that succeeds stores its object under its key, and the checksum it was sent with is
that of the contents. -/
theorem putObjectSingle_eq_ok {client client' : MockClient} {fails : Bool} {bucket key : String}
    {params : PutObjectSingleParams} {contents : List UInt8}
    (h : client.putObjectSingle crc fails bucket key params contents = .ok client') :
    fails = false ∧ bucket = client.bucket ∧ (∀ c ∈ params.checksum, c = crc.checksum contents) ∧
      client' = { client with
        objects := Function.update client.objects key
          (some ⟨contents, params.objectMetadata, params.checksum.map crc32cToBase64⟩) } := by
  unfold putObjectSingle at h
  cases fails
  · by_cases hbucket : bucket = client.bucket
    · rw [if_neg Bool.false_ne_true, if_neg (not_not_intro hbucket)] at h
      split at h
      · cases h
      · rename_i checksum hvalid
        obtain ⟨rfl, hsum⟩ := validateChecksum_eq_ok hvalid
        cases h
        exact ⟨rfl, hbucket, hsum, rfl⟩
    · rw [if_neg Bool.false_ne_true, if_pos hbucket] at h
      cases h
  · cases h

/-- A get that succeeds streams the object stored under its key. -/
theorem getObject_eq_ok {client : MockClient} {fails : Bool} {bucket key : String}
    {response : GetObjectResponse} (h : client.getObject fails bucket key = .ok response) :
    fails = false ∧ bucket = client.bucket ∧ ∃ object, client.objects key = some object ∧
      response = ⟨bodyPartsFrom client.partSize object.bytes.length 0 object.bytes,
        object.objectMetadata, object.checksumCrc32c⟩ := by
  unfold getObject at h
  cases fails
  · by_cases hbucket : bucket = client.bucket
    · rw [if_neg Bool.false_ne_true, if_neg (not_not_intro hbucket)] at h
      split at h
      · cases h
      · rename_i object hobject
        cases h
        exact ⟨rfl, hbucket, object, hobject, rfl⟩
    · rw [if_neg Bool.false_ne_true, if_pos hbucket] at h
      cases h
  · cases h

end MockClient

end MountpointS3.Client
