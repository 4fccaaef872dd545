import MountpointS3.Checksums
import MountpointS3.Foundations.Run

/-!
# The atomic upload and its review

`upload/atomic.rs`: an `UploadRequest` takes writes in order into a PutObject request, hashing
each write's bytes; on completion S3 reports the parts it received, each with its size and its
CRC32C in base64, and `verify_checksums` accepts the upload when the part sizes add up to the
bytes written and the part checksums combine to their checksum.

The client is modelled by what it does for the upload: the base64 decoding of a part checksum
(`crc32c_from_base64`) is a parameter, a write of the request is accepted or fails, and a
request that has failed fails every later write and its completion.

* `verifyParts_eq`: the loop of `verify_checksums` adds the part sizes (as `u64`, wrapping) and
  folds `combine_checksums` over the decoded checksums, or stops at a part whose checksum does
  not decode;
* `verifyChecksums_of_reports`: when the review reports a split of some bytes, one part per
  piece, `verify_checksums` accepts exactly when those bytes have the expected size modulo
  `2^64` and the expected CRC32C;
* `UploadRequest.Wf`, `run_wf`: along every sequence of writes, a request that has not failed
  hashed exactly the bytes it sent, in order, and out-of-order or oversized writes change
  nothing;
* the sizes are added as `u64`: parts whose sizes add up to `2^64` pass for an upload of no
  bytes.
-/

namespace MountpointS3.Upload

open Checksums Foundations

/-- `UploadReviewPart`. -/
structure UploadReviewPart where
  size : UInt64
  checksum : Option String
  deriving DecidableEq, Repr

section Review

variable (crc : Crc) (crc32cFromBase64 : String → Option UInt32)

/-- The part's checksum, decoded by `crc32c_from_base64`; `none` where it is missing or does
not decode. -/
def UploadReviewPart.decodedChecksum (part : UploadReviewPart) : Option UInt32 :=
  part.checksum.bind crc32cFromBase64

/-- The loop of `verify_checksums`: the size and checksum of the parts so far, or `none` where it
returns `false` for a missing or undecodable checksum. -/
def verifyParts : List UploadReviewPart → UInt64 → UInt32 → Option (UInt64 × UInt32)
  | [], uploadedSize, uploadedChecksum => some (uploadedSize, uploadedChecksum)
  | part :: parts, uploadedSize, uploadedChecksum =>
    let uploadedSize := uploadedSize + part.size
    match part.checksum with
    | none => none
    | some checksum =>
      match crc32cFromBase64 checksum with
      | none => none
      | some checksum =>
        verifyParts parts uploadedSize
          (combineChecksums crc uploadedChecksum checksum part.size.toNat)

/-- `verify_checksums`. -/
def verifyChecksums (parts : List UploadReviewPart) (expectedSize : UInt64)
    (expectedChecksum : UInt32) : Bool :=
  match verifyParts crc crc32cFromBase64 parts 0 0 with
  | none => false
  | some (uploadedSize, uploadedChecksum) =>
    if uploadedSize ≠ expectedSize then false
    else if uploadedChecksum ≠ expectedChecksum then false
    else true

/-- The checksum folding `combine_checksums` over the parts gives, from `init`. -/
def foldChecksums (parts : List UploadReviewPart) (init : UInt32) : UInt32 :=
  parts.foldl (fun acc part =>
    combineChecksums crc acc ((part.decodedChecksum crc32cFromBase64).getD 0) part.size.toNat) init

/-- The review reports a split of `bytes` into pieces, one part for each piece, with its size
and a checksum that decodes to the piece's CRC32C. -/
def Reports (parts : List UploadReviewPart) (bytes : List UInt8) : Prop :=
  ∃ pieces : List (List UInt8), pieces.flatten = bytes ∧
    List.Forall₂ (fun part piece => part.size.toNat = piece.length ∧
      part.decodedChecksum crc32cFromBase64 = some (crc.checksum piece)) parts pieces

variable {crc crc32cFromBase64}

/-- The loop adds the sizes and folds the checksums when every checksum decodes. -/
theorem verifyParts_eq (parts : List UploadReviewPart) (uploadedSize : UInt64)
    (uploadedChecksum : UInt32) :
    verifyParts crc crc32cFromBase64 parts uploadedSize uploadedChecksum =
      if parts.all fun part => (part.decodedChecksum crc32cFromBase64).isSome then
        some (uploadedSize + (parts.map UploadReviewPart.size).sum,
          foldChecksums crc crc32cFromBase64 parts uploadedChecksum)
      else none := by
  induction parts generalizing uploadedSize uploadedChecksum with
  | nil => simp [verifyParts, foldChecksums]
  | cons part parts ih =>
    rcases hc : part.checksum with _ | checksum
    · simp [verifyParts, hc, UploadReviewPart.decodedChecksum]
    rcases hd : crc32cFromBase64 checksum with _ | decoded
    · simp [verifyParts, hc, hd, UploadReviewPart.decodedChecksum]
    -- the part decodes: one more step of the fold
    simp only [verifyParts, hc, hd, ih, List.all_cons, UploadReviewPart.decodedChecksum,
      Option.bind_some, Option.isSome_some, Bool.true_and, List.map_cons, List.sum_cons,
      foldChecksums, List.foldl_cons, Option.getD_some, UInt64.add_assoc]

/-- `u64` addition of the sizes is addition modulo `2^64`. -/
theorem toNat_sum_sizes (parts : List UploadReviewPart) :
    (parts.map UploadReviewPart.size).sum.toNat =
      (parts.map fun part => part.size.toNat).sum % 2 ^ 64 := by
  induction parts with
  | nil => rfl
  | cons part parts ih =>
    simp only [List.map_cons, List.sum_cons, UInt64.toNat_add, ih, Nat.add_mod_mod]

/-- **What `verify_checksums` checks.** It accepts exactly when every part's checksum decodes,
the sizes add up to the expected size as `u64`, and the checksums combine to the expected one. -/
theorem verifyChecksums_eq_true_iff (parts : List UploadReviewPart) (expectedSize : UInt64)
    (expectedChecksum : UInt32) :
    verifyChecksums crc crc32cFromBase64 parts expectedSize expectedChecksum = true ↔
      (∀ part ∈ parts, (part.decodedChecksum crc32cFromBase64).isSome) ∧
      (parts.map UploadReviewPart.size).sum = expectedSize ∧
      foldChecksums crc crc32cFromBase64 parts 0 = expectedChecksum := by
  unfold verifyChecksums
  rw [verifyParts_eq]
  by_cases hall : parts.all fun part => (part.decodedChecksum crc32cFromBase64).isSome
  · have hall' : ∀ part ∈ parts, (part.decodedChecksum crc32cFromBase64).isSome := by
      simpa using hall
    simp only [hall, if_true, UInt64.zero_add]
    split_ifs <;> simp_all
  · simp only [hall, Bool.false_eq_true, if_false, false_iff]
    rintro ⟨hall', -⟩
    exact hall (List.all_eq_true.2 hall')

/-- Folding over the parts of a split continues the checksum of what came before. -/
theorem foldChecksums_of_forall₂ (hlaw : crc.Lawful) {parts : List UploadReviewPart}
    {pieces : List (List UInt8)}
    (h : List.Forall₂ (fun part piece => part.size.toNat = piece.length ∧
      part.decodedChecksum crc32cFromBase64 = some (crc.checksum piece)) parts pieces)
    (before : List UInt8) :
    foldChecksums crc crc32cFromBase64 parts (crc.checksum before) =
      crc.checksum (before ++ pieces.flatten) := by
  induction h generalizing before with
  | nil => simp [foldChecksums]
  | cons hpart _ ih =>
    obtain ⟨hsize, hdecoded⟩ := hpart
    simp only [foldChecksums, List.foldl_cons, hdecoded, Option.getD_some, hsize,
      combineChecksums, hlaw.combine_checksum, List.flatten_cons, ← List.append_assoc] at ih ⊢
    exact ih _

theorem decodes_of_forall₂ {parts : List UploadReviewPart} {pieces : List (List UInt8)}
    (h : List.Forall₂ (fun part piece => part.size.toNat = piece.length ∧
      part.decodedChecksum crc32cFromBase64 = some (crc.checksum piece)) parts pieces) :
    ∀ part ∈ parts, (part.decodedChecksum crc32cFromBase64).isSome := by
  induction h with
  | nil => simp
  | cons hpart _ ih => simp_all

theorem sum_sizes_of_forall₂ {parts : List UploadReviewPart} {pieces : List (List UInt8)}
    (h : List.Forall₂ (fun part piece => part.size.toNat = piece.length ∧
      part.decodedChecksum crc32cFromBase64 = some (crc.checksum piece)) parts pieces) :
    (parts.map fun part => part.size.toNat).sum = pieces.flatten.length := by
  induction h with
  | nil => rfl
  | cons hpart _ ih => simp [ih, hpart.1]

/-- **`verify_checksums` on a review that reports a split of some bytes** accepts exactly when
those bytes have the expected size, as `u64`, and the expected CRC32C. -/
theorem verifyChecksums_of_reports (hlaw : crc.Lawful) {parts : List UploadReviewPart}
    {bytes : List UInt8} (h : Reports crc crc32cFromBase64 parts bytes) (expectedSize : UInt64)
    (expectedChecksum : UInt32) :
    verifyChecksums crc crc32cFromBase64 parts expectedSize expectedChecksum = true ↔
      UInt64.ofNat bytes.length = expectedSize ∧ crc.checksum bytes = expectedChecksum := by
  obtain ⟨pieces, rfl, hparts⟩ := h
  have hsum : (parts.map UploadReviewPart.size).sum = UInt64.ofNat pieces.flatten.length := by
    apply UInt64.toNat_inj.1
    rw [toNat_sum_sizes, sum_sizes_of_forall₂ hparts, UInt64.toNat_ofNat']
  have hfold : foldChecksums crc crc32cFromBase64 parts 0 = crc.checksum pieces.flatten := by
    simpa [hlaw.checksum_nil] using foldChecksums_of_forall₂ hlaw hparts []
  rw [verifyChecksums_eq_true_iff, hsum, hfold]
  exact ⟨fun h => h.2, fun h => ⟨decodes_of_forall₂ hparts, h⟩⟩

/-- Parts whose sizes add up to `2^64` pass for an upload of no bytes: the `u64` sum wraps. -/
theorem verify_checksums_wraps_size (s : String) (hs : crc32cFromBase64 s = some 0) :
    verifyChecksums crc crc32cFromBase64 [⟨18446744073709551615, some s⟩, ⟨1, some s⟩] 0
        (foldChecksums crc crc32cFromBase64 [⟨18446744073709551615, some s⟩, ⟨1, some s⟩] 0) =
      true ∧
    ([⟨18446744073709551615, some s⟩, ⟨1, some s⟩] : List UploadReviewPart).map
        (fun part => part.size.toNat) = [2 ^ 64 - 1, 1] := by
  refine ⟨(verifyChecksums_eq_true_iff _ _ _).2 ⟨?_, by simp, rfl⟩, rfl⟩
  simp [UploadReviewPart.decodedChecksum, hs]

theorem verify_checksums_wraps_size_byteSum :
    verifyChecksums byteSum (fun _ => some 0) [⟨18446744073709551615, some "AAAAAA=="⟩,
        ⟨1, some "AAAAAA=="⟩] 0
        (foldChecksums byteSum (fun _ => some 0) [⟨18446744073709551615, some "AAAAAA=="⟩,
          ⟨1, some "AAAAAA=="⟩] 0) = true ∧
    ([⟨18446744073709551615, some "AAAAAA=="⟩, ⟨1, some "AAAAAA=="⟩] : List UploadReviewPart).map
        (fun part => part.size.toNat) = [2 ^ 64 - 1, 1] :=
  verify_checksums_wraps_size "AAAAAA==" rfl

end Review

/-! ## The request -/

/-- `UploadError`, as the upload request raises it. -/
inductive UploadError
  | outOfOrderWrite (writeOffset expectedOffset : ℕ)
  | objectTooBig (maximumSize : ℕ)
  /-- An error of the PutObject request, `UploadAlreadyTerminated`, or a review it rejects. -/
  | putRequestFailed
  deriving DecidableEq, Repr

/-- `MAX_S3_MULTIPART_UPLOAD_PARTS`. -/
def maxS3MultipartUploadParts : ℕ := 10000

/-- `UploadRequest`, with what its PutObject request has been sent. -/
structure UploadRequest where
  nextRequestOffset : ℕ
  /-- The bytes given to the hasher, in order. -/
  hashed : List UInt8
  maximumUploadSize : ℕ
  /-- The bytes the PutObject request accepted, in order. -/
  sent : List UInt8
  /-- The PutObject request has failed. -/
  failed : Bool
  deriving DecidableEq, Repr

namespace UploadRequest

/-- `UploadRequest::new`: the object is bounded by
`write_part_size.saturating_mul(MAX_S3_MULTIPART_UPLOAD_PARTS)`. -/
def new (writePartSize : ℕ) : UploadRequest :=
  ⟨0, [], min (writePartSize * maxS3MultipartUploadParts) (2 ^ 64 - 1), [], false⟩

/-- `UploadRequest::write`; `accepted` is whether the PutObject request takes the data. -/
def write (r : UploadRequest) (offset : ℤ) (data : List UInt8) (accepted : Bool) :
    Except UploadError ℕ × UploadRequest :=
  let nextOffset := r.nextRequestOffset
  if offset ≠ nextOffset then (.error (.outOfOrderWrite (offset % 2 ^ 64).toNat nextOffset), r)
  else if nextOffset + data.length > r.maximumUploadSize then
    (.error (.objectTooBig r.maximumUploadSize), r)
  else
    let r := { r with hashed := r.hashed ++ data }
    if r.failed || !accepted then (.error .putRequestFailed, { r with failed := true })
    else
      (.ok data.length,
        { r with sent := r.sent ++ data, nextRequestOffset := nextOffset + data.length })

variable (crc : Crc) (crc32cFromBase64 : String → Option UInt32)

/-- `UploadRequest::complete`: S3's review of the parts it received is checked by
`verify_checksums` against the size and the hash of the writes. -/
def complete (r : UploadRequest) (review : List UploadReviewPart) : Except UploadError Unit :=
  if r.failed then .error .putRequestFailed
  else if verifyChecksums crc crc32cFromBase64 review (UInt64.ofNat r.nextRequestOffset)
      (crc.checksum r.hashed) then .ok ()
  else .error .putRequestFailed

/-- One write, with its offset, its bytes and whether the PutObject request takes them. -/
def step (r : UploadRequest) (call : ℤ × List UInt8 × Bool) : UploadRequest :=
  (r.write call.1 call.2.1 call.2.2).2

/-- What holds of a request between calls: until its PutObject request fails it hashed
exactly what it sent, and it is within its bound. -/
structure Wf (r : UploadRequest) : Prop where
  hashed_eq : r.failed = false → r.hashed = r.sent
  offset_eq : r.failed = false → r.nextRequestOffset = r.sent.length
  offset_le : r.nextRequestOffset ≤ r.maximumUploadSize
  maximum_lt : r.maximumUploadSize < 2 ^ 64

variable {r : UploadRequest} {offset : ℤ} {data : List UInt8} {accepted : Bool}

/-- A write at another offset than the next is rejected and changes nothing. -/
theorem write_outOfOrder (h : offset ≠ r.nextRequestOffset) :
    r.write offset data accepted =
      (.error (.outOfOrderWrite (offset % 2 ^ 64).toNat r.nextRequestOffset), r) :=
  if_pos h

/-- A write past the bound is rejected, before the hasher sees it, and changes nothing. -/
theorem write_tooBig (h : r.maximumUploadSize < r.nextRequestOffset + data.length) :
    r.write offset data accepted = (.error (.objectTooBig r.maximumUploadSize), r) ∨
      r.write offset data accepted =
        (.error (.outOfOrderWrite (offset % 2 ^ 64).toNat r.nextRequestOffset), r) := by
  by_cases hoff : offset = r.nextRequestOffset
  · exact .inl (by simp [write, hoff, h])
  · exact .inr (write_outOfOrder hoff)

theorem wf_new (writePartSize : ℕ) : (new writePartSize).Wf :=
  ⟨fun _ => rfl, fun _ => rfl, Nat.zero_le _, by simp [new]⟩

/-- One write keeps the request well formed. -/
theorem Wf.after (h : r.Wf) (call : ℤ × List UInt8 × Bool) : (r.step call).Wf := by
  obtain ⟨offset, data, accepted⟩ := call
  dsimp only [UploadRequest.step, write]
  split
  · exact h
  split
  · exact h
  rename_i hfits
  split
  · -- the request fails from now on
    exact ⟨fun hf => by simp at hf, fun hf => by simp at hf, h.offset_le, h.maximum_lt⟩
  · rename_i hok
    have hnot : r.failed = false := by simp_all
    refine ⟨fun _ => by simp [h.hashed_eq hnot], fun _ => by simp [h.offset_eq hnot], ?_,
      h.maximum_lt⟩
    simp only
    omega

theorem wf_of_reachable {writePartSize : ℕ} (h : Reachable step (new writePartSize) r) : r.Wf :=
  reachable_invariant (fun _ call hr => hr.after call) (wf_new writePartSize) h

variable {crc crc32cFromBase64}

/-- **A request that has not failed completes exactly on a review of the bytes it wrote, up to
their CRC32C and their size modulo `2^64`.** -/
theorem complete_of_reports (hlaw : crc.Lawful) (hr : r.Wf) (hf : r.failed = false)
    {review : List UploadReviewPart} {received : List UInt8}
    (hrep : Reports crc crc32cFromBase64 review received) :
    r.complete crc crc32cFromBase64 review = .ok () ↔
      received.length % 2 ^ 64 = r.sent.length % 2 ^ 64 ∧
        crc.checksum received = crc.checksum r.sent := by
  have hsize : UInt64.ofNat received.length = UInt64.ofNat r.nextRequestOffset ↔
      received.length % 2 ^ 64 = r.sent.length % 2 ^ 64 := by
    rw [hr.offset_eq hf, ← UInt64.toNat_inj, UInt64.toNat_ofNat', UInt64.toNat_ofNat']
  unfold complete
  rw [hf, hr.hashed_eq hf, ← hsize, ← verifyChecksums_of_reports hlaw hrep]
  split <;> simp_all

theorem complete_of_failed (hf : r.failed = true) (review : List UploadReviewPart) :
    r.complete crc crc32cFromBase64 review = .error .putRequestFailed :=
  if_pos hf

end UploadRequest

/-- What the review and the request guarantee. `verify_checksums` accepts a review of a
split of the data it is given, and accepts only reviews whose checksums decode, whose sizes add
up to the expected size modulo `2^64` and whose checksums combine to the expected one. A request
reached by any sequence of writes that has not failed hashed exactly what it sent, and
completes exactly on a review of bytes with the CRC32C and the size modulo `2^64` of those it
sent; one that has failed does not complete. -/
structure ReviewGuarantees (crc : Crc) (crc32cFromBase64 : String → Option UInt32) : Prop where
  accepts : ∀ (parts : List UploadReviewPart) (bytes : List UInt8),
    Reports crc crc32cFromBase64 parts bytes →
      verifyChecksums crc crc32cFromBase64 parts (UInt64.ofNat bytes.length) (crc.checksum bytes) =
        true
  checks : ∀ parts expectedSize expectedChecksum,
    verifyChecksums crc crc32cFromBase64 parts expectedSize expectedChecksum = true →
      (∀ part ∈ parts, (part.decodedChecksum crc32cFromBase64).isSome) ∧
      (parts.map fun part => part.size.toNat).sum % 2 ^ 64 = expectedSize.toNat ∧
      foldChecksums crc crc32cFromBase64 parts 0 = expectedChecksum
  request : ∀ (writePartSize : ℕ) (r : UploadRequest),
    Reachable UploadRequest.step (UploadRequest.new writePartSize) r →
      (r.failed = false → r.hashed = r.sent ∧
        ∀ review received, Reports crc crc32cFromBase64 review received →
          (r.complete crc crc32cFromBase64 review = .ok () ↔
            received.length % 2 ^ 64 = r.sent.length % 2 ^ 64 ∧
              crc.checksum received = crc.checksum r.sent)) ∧
      (r.failed = true → ∀ review, r.complete crc crc32cFromBase64 review = .error .putRequestFailed)

theorem upload_review_accepts_uploaded_data (crc : Crc)
    (crc32cFromBase64 : String → Option UInt32) (hlaw : crc.Lawful) :
    ReviewGuarantees crc crc32cFromBase64 where
  accepts _ _ hrep := ((verifyChecksums_of_reports hlaw hrep _ _).2 ⟨rfl, rfl⟩)
  checks parts expectedSize expectedChecksum h := by
    obtain ⟨hdecodes, hsum, hfold⟩ := (verifyChecksums_eq_true_iff _ _ _).1 h
    exact ⟨hdecodes, by rw [← toNat_sum_sizes, hsum], hfold⟩
  request writePartSize r hreach := by
    have hr := UploadRequest.wf_of_reachable hreach
    exact ⟨fun hf => ⟨hr.hashed_eq hf, fun _ _ hrep => UploadRequest.complete_of_reports hlaw hr hf hrep⟩,
      fun hf review => UploadRequest.complete_of_failed hf review⟩

theorem upload_review_accepts_uploaded_data_byteSum : ReviewGuarantees byteSum fun _ => some 0 :=
  upload_review_accepts_uploaded_data byteSum (fun _ => some 0) byteSum_lawful

end MountpointS3.Upload
