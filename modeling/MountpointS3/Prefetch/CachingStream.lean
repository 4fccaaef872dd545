import MountpointS3.Foundations.Slice
import MountpointS3.Prefetch.Part

/-!
# The caching part stream

`prefetch/caching_stream.rs`, with the `RequestRange` of `prefetch/part_stream.rs`. A request
task of the caching stream serves a byte range of an object from the data cache, block by block,
and at the first block the cache misses turns to the client for the rest, in one request widened
to block boundaries. `compose_parts` cuts the body parts the client returns at the block ends:
every cut piece trimmed to the range goes to the part queue, and every block filled is written to
the cache.

The object is a list of bytes `C`; the cache (`get_block`) and the client's response (the body
parts of `read_from_client_stream`) are parameters, and the task's effects, the parts pushed and
the blocks written, are its result (`Effects`).

* `tryMakePart_eq`: the part `try_make_part` cuts, where the range meets the bytes;
* `Covers`: parts that hold the bytes of `C` from one offset to another, trimmed to the range,
  and `Covers.push`, the one step every loop of the task takes;
* `Splits`: body parts one after the other holding a slice of `C`, what a client returns;
  `Feeds`: the same with no empty part, what a request's producer must push (`feeds_cons_iff`);
* `splitBody_composing`, `composeLoop_composing`: what the loops of `compose_parts` keep;
* `getFromCache_feeds`: the task feeds the range's bytes and pushes no error;
* `caching_stream_delivers`: from a cache that holds the object's blocks and a client that returns
  the bytes it is asked for, the task delivers the range's bytes and writes whole blocks.
-/

namespace MountpointS3.Prefetch

open Foundations

/-! ## Request ranges -/

/-- `RequestRange`: the bytes `[offset, offset + size)` of an object of `objectSize` bytes. -/
structure RequestRange where
  objectSize : ℕ
  offset : ℕ
  size : ℕ

/-- `Ord::clamp` on `u64`; its `assert!(min <= max)` holds wherever the model calls it. -/
def clamp (x lo hi : ℕ) : ℕ :=
  if x < lo then lo else if x > hi then hi else x

namespace RequestRange

/-- `RequestRange::new`, which cuts the size at the object's end. -/
def new (objectSize offset size : ℕ) : RequestRange :=
  ⟨objectSize, offset, min size (objectSize - offset)⟩

/-- `RequestRange::start`. -/
def start (r : RequestRange) : ℕ := r.offset

/-- `RequestRange::end`. -/
def endOffset (r : RequestRange) : ℕ := r.offset + r.size

/-- `RequestRange::is_empty`. -/
def isEmpty (r : RequestRange) : Bool := r.size == 0

/-- `RequestRange::trim_start`. -/
def trimStart (r : RequestRange) (startOffset : ℕ) : RequestRange :=
  let e := r.endOffset
  let offset := clamp startOffset r.offset e
  let size := e - offset
  ⟨r.objectSize, offset, size⟩

/-- `RequestRange::trim_end`. -/
def trimEnd (r : RequestRange) (endOffset : ℕ) : RequestRange :=
  let e := clamp endOffset r.offset r.endOffset
  let size := e - r.offset
  ⟨r.objectSize, r.offset, size⟩

end RequestRange

/-- `try_make_part`: the bytes at `offset` that lie in the range, as a part, if there are any. -/
def tryMakePart (bytes : List UInt8) (offset : ℕ) (range : RequestRange) : Option Part :=
  let partRange := (range.trimStart offset).trimEnd (offset + bytes.length)
  if partRange.isEmpty then none
  else
    let trimStart := partRange.start - offset
    let trimEnd := partRange.endOffset - offset
    some ⟨partRange.start, (bytes.take trimEnd).drop trimStart⟩

/-- `block_indices_for_byte_range`, as the first block and the block after the last. -/
def blockIndicesForByteRange (blockSize : ℕ) (range : RequestRange) : ℕ × ℕ :=
  let startBlock := range.start / blockSize
  let endBlock := range.endOffset / blockSize
  if !range.isEmpty && range.endOffset % blockSize != 0 then (startBlock, endBlock + 1)
  else (startBlock, endBlock)

section Ranges

theorem clamp_eq {x lo hi : ℕ} (h : lo ≤ hi) : clamp x lo hi = max lo (min x hi) := by
  unfold clamp
  split_ifs <;> omega

namespace RequestRange

variable (r : RequestRange) (x : ℕ)

theorem start_le_endOffset : r.start ≤ r.endOffset := Nat.le_add_right _ _

theorem isEmpty_iff : r.isEmpty = true ↔ r.endOffset ≤ r.start := by
  simp only [isEmpty, beq_iff_eq, endOffset, start]
  omega

@[simp] theorem trimStart_objectSize : (r.trimStart x).objectSize = r.objectSize := rfl

theorem trimStart_start : (r.trimStart x).start = max r.start (min x r.endOffset) :=
  clamp_eq r.start_le_endOffset

theorem trimStart_endOffset : (r.trimStart x).endOffset = r.endOffset := by
  have h := r.trimStart_start x
  simp only [trimStart, start, endOffset] at h ⊢
  omega

theorem trimEnd_endOffset : (r.trimEnd x).endOffset = max r.start (min x r.endOffset) := by
  have h : clamp x r.offset r.endOffset = max r.start (min x r.endOffset) :=
    clamp_eq r.start_le_endOffset
  simp only [trimEnd, start, endOffset] at h ⊢
  omega

end RequestRange

/-- `try_make_part` cuts the bytes where the range meets them, if it does. -/
theorem tryMakePart_eq (bytes : List UInt8) (offset : ℕ) (r : RequestRange) :
    tryMakePart bytes offset r =
      if max r.start offset < min (offset + bytes.length) r.endOffset then
        some ⟨max r.start offset, (bytes.take (min (offset + bytes.length) r.endOffset -
          offset)).drop (max r.start offset - offset)⟩
      else none := by
  have hstart : ((r.trimStart offset).trimEnd (offset + bytes.length)).start =
      max r.start (min offset r.endOffset) := r.trimStart_start offset
  have hend : ((r.trimStart offset).trimEnd (offset + bytes.length)).endOffset =
      max (max r.start (min offset r.endOffset)) (min (offset + bytes.length) r.endOffset) := by
    rw [RequestRange.trimEnd_endOffset, RequestRange.trimStart_start,
      RequestRange.trimStart_endOffset]
  unfold tryMakePart
  simp only [RequestRange.isEmpty_iff, hstart, hend]
  split_ifs with hempty hcut hcut
  · omega
  · rfl
  · -- the range meets the bytes after `offset` and before its own end
    have hlo : max r.start (min offset r.endOffset) = max r.start offset := by omega
    have hhi : max (max r.start offset) (min (offset + bytes.length) r.endOffset) =
        min (offset + bytes.length) r.endOffset := by omega
    rw [hlo, hhi]
  · omega

/-- Trimming the range's start before an offset changes nothing of the part cut there. -/
theorem tryMakePart_trimStart (bytes : List UInt8) {x offset : ℕ} (r : RequestRange)
    (h : x ≤ offset) : tryMakePart bytes offset (r.trimStart x) = tryMakePart bytes offset r := by
  have hmax : max (max r.start (min x r.endOffset)) offset = max r.start offset := by omega
  simp only [tryMakePart_eq, RequestRange.trimStart_start, RequestRange.trimStart_endOffset, hmax]

end Ranges

/-! ## Parts that cover a run of bytes -/

section Covers

variable {C : List UInt8} {r : RequestRange}

/-- The parts pushed for the bytes of `C` from `a` to `x`, trimmed to the range `r`: each
non-empty, one after the other from where the range meets `a`, together the bytes of `C` the
range keeps. -/
structure Covers (C : List UInt8) (r : RequestRange) (a x : ℕ) (ps : List Part) : Prop where
  nonempty : ∀ p ∈ ps, p.data ≠ []
  contiguous : Contiguous (max a r.start) ps
  bytes_eq : bytes ps = (C.drop (max a r.start)).take (min x r.endOffset - max a r.start)

theorem Covers.nil (a : ℕ) : Covers C r a a [] where
  nonempty := by simp
  contiguous := trivial
  bytes_eq := by
    have h : min a r.endOffset - max a r.start = 0 := by omega
    rw [h, List.take_zero, bytes_nil]

/-- Covering up to `x` is covering up to `y` where the range keeps the same bytes. -/
theorem Covers.congr_end {a x y : ℕ} {ps : List Part} (h : Covers C r a x ps)
    (hxy : min x r.endOffset - max a r.start = min y r.endOffset - max a r.start) :
    Covers C r a y ps :=
  ⟨h.nonempty, h.contiguous, hxy ▸ h.bytes_eq⟩

/-- **The step of every loop.** The part cut from the `l` bytes of `C` at `x`, if any, extends
a cover up to `x` to a cover up to `x + l`. -/
theorem Covers.push {a x l : ℕ} {ps : List Part} (h : Covers C r a x ps) (hax : a ≤ x)
    (hend : r.endOffset ≤ C.length) :
    Covers C r a (x + l) (ps ++ (tryMakePart ((C.drop x).take l) x r).toList) := by
  have hL : ((C.drop x).take l).length = min l (C.length - x) := by simp
  have hlen : totalLen ps = min x r.endOffset - max a r.start := by
    rw [← length_bytes, h.bytes_eq, length_slice _ (by omega)]
  rw [tryMakePart_eq, hL]
  split_ifs with hcut
  · -- the range meets the bytes: one more part, right where the others end
    have hhi : min (x + min l (C.length - x)) r.endOffset = min (x + l) r.endOffset := by omega
    have hdata : (((C.drop x).take l).take (min (x + l) r.endOffset - x)).drop
        (max r.start x - x) =
        (C.drop (max r.start x)).take (min (x + l) r.endOffset - max r.start x) := by
      have hoff : x + (max r.start x - x) = max r.start x := by omega
      have hcount : min (x + l) r.endOffset - x - (max r.start x - x) =
          min (x + l) r.endOffset - max r.start x := by omega
      rw [slice_slice _ x (by omega), hoff, hcount]
    simp only [hhi, hdata, Option.toList_some]
    refine ⟨?_, ?_, ?_⟩
    · intro p hp
      rcases List.mem_append.1 hp with hp | hp
      · exact h.nonempty p hp
      · rw [List.mem_singleton.1 hp]
        apply List.ne_nil_of_length_pos
        simp only [List.length_take, List.length_drop]
        omega
    · rw [contiguous_append]
      refine ⟨h.contiguous, ?_, trivial⟩
      show max r.start x = max a r.start + totalLen ps
      omega
    · -- before `x` the range keeps up to `x` or nothing; either way the slices are adjacent
      have hfirst : min x r.endOffset - max a r.start = max r.start x - max a r.start := by
        omega
      rw [bytes_append, h.bytes_eq, bytes_cons, bytes_nil, List.append_nil, hfirst,
        slice_append_slice _ (by omega) (by omega)]
  · -- the range misses the bytes: it keeps no more than up to `x`
    simp only [Option.toList_none, List.append_nil]
    refine h.congr_end ?_
    omega

end Covers

/-! ## The task -/

/-- The error `compose_parts` returns itself, on a body part at an unexpected offset. -/
inductive ComposeError
  | getRequestReturnedWrongOffset (offset expectedOffset : ℕ)

/-- `put_block(block_index, block_offset, bytes)`. -/
structure PutBlock where
  blockIndex : ℕ
  blockOffset : ℕ
  bytes : List UInt8

/-- What a request task has pushed to its part queue and written to the cache, in order. -/
structure Effects where
  parts : List Part
  puts : List PutBlock
  /-- The error pushed after the parts, with which the task ends. -/
  error : Option ComposeError

/-- `CachingPartComposer`, with its cache's block size, which `get_from_client` asserts is
positive. -/
structure CachingPartComposer where
  originalRange : RequestRange
  blockIndex : ℕ
  blockOffset : ℕ
  blockSize : ℕ
  blockSize_pos : 0 < blockSize

namespace CachingPartComposer

/-- The inner `while` loop of `compose_parts`: cuts `body`, at `offset`, at the block ends. Every
piece in the original range goes to the part queue, and every block filled to the cache. -/
def splitBody (c : CachingPartComposer) (buffer : List UInt8) (offset : ℕ) (body : List UInt8)
    (fx : Effects) : CachingPartComposer × List UInt8 × Effects :=
  if body = [] then (c, buffer, fx)
  else
    let remaining := min (c.blockSize - buffer.length) body.length
    let chunk := body.take remaining
    let fx := { fx with parts := fx.parts ++ (tryMakePart chunk offset c.originalRange).toList }
    let buffer' := buffer ++ chunk
    -- the body is used up unless the block is full
    if buffer'.length < c.blockSize then (c, buffer', fx)
    else
      let fx := { fx with puts := fx.puts ++ [⟨c.blockIndex, c.blockOffset, buffer'⟩] }
      let c' := { c with
        blockIndex := c.blockIndex + 1
        blockOffset := c.blockOffset + c.blockSize }
      splitBody c' [] (offset + chunk.length) (body.drop remaining) fx
termination_by body.length + buffer.length
decreasing_by
  have hpos := c.blockSize_pos
  have hlen : body.length ≠ 0 := by simpa using ‹¬body = []›
  simp only [List.length_drop, List.length_nil]
  omega

/-- The outer `while` loop of `compose_parts`, over the body parts of the request stream; `none`
where its `assert!` fails. -/
def composeLoop (c : CachingPartComposer) (buffer : List UInt8) (fx : Effects) :
    List Part → Option (Except ComposeError (CachingPartComposer × List UInt8) × Effects)
  | [] => some (.ok (c, buffer), fx)
  | next :: rest =>
    if buffer.length < c.blockSize then
      let expectedOffset := c.blockOffset + buffer.length
      if next.offset ≠ expectedOffset then
        some (.error (.getRequestReturnedWrongOffset next.offset expectedOffset), fx)
      else
        match c.splitBody buffer next.offset next.data fx with
        | (c, buffer, fx) => composeLoop c buffer fx rest
    else none

/-- `compose_parts`; `none` where an `assert!` fails. A partial block left at the end is written
to the cache if it ends at the object's end. -/
def composeParts (c : CachingPartComposer) (requestStream : List Part) (fx : Effects) :
    Option (Except ComposeError Unit × Effects) :=
  match c.composeLoop [] fx requestStream with
  | none => none
  | some (.error e, fx) => some (.error e, fx)
  | some (.ok (c, buffer), fx) =>
    if buffer ≠ [] then
      if c.blockOffset + buffer.length = c.originalRange.objectSize then
        some (.ok (), { fx with puts := fx.puts ++ [⟨c.blockIndex, c.blockOffset, buffer⟩] })
      else none
    else some (.ok (), fx)

/-- `try_compose_parts`, which pushes the error `compose_parts` returns. -/
def tryComposeParts (c : CachingPartComposer) (requestStream : List Part) (fx : Effects) :
    Option Effects :=
  (c.composeParts requestStream fx).map fun r =>
    match r.1 with
    | .error e => { r.2 with error := some e }
    | .ok () => r.2

end CachingPartComposer

/-- `CachingRequest::get_from_client`, for the blocks from `blockStart` to `blockEnd`.
`respond start stop` are the body parts the client returns for the bytes from `start` to
`stop`. -/
def getFromClient (blockSize : ℕ) (respond : ℕ → ℕ → List Part) (range : RequestRange)
    (blockStart blockEnd : ℕ) (fx : Effects) : Option Effects :=
  if h : 0 < blockSize then
    -- always request a range aligned with block boundaries, or to the end of the object
    let startOffset := blockStart * blockSize
    let endOffset := min (blockEnd * blockSize) range.objectSize
    let requestLen := endOffset - startOffset
    let blockAlignedByteRange := RequestRange.new range.objectSize startOffset requestLen
    CachingPartComposer.tryComposeParts ⟨range, blockStart, blockStart * blockSize, blockSize, h⟩
      (respond blockAlignedByteRange.start blockAlignedByteRange.endOffset) fx
  else none

/-- The `for` loop of `get_from_cache`, over the blocks `blocks` up to `blockEnd`, the first at
`blockOffset`. `cache i` is what `get_block` answers for block `i`: `none` for a miss or an
error. -/
def cacheLoop (blockSize : ℕ) (cache : ℕ → Option (List UInt8)) (respond : ℕ → ℕ → List Part)
    (range : RequestRange) (blockEnd : ℕ) (blockOffset : ℕ) (fx : Effects) :
    List ℕ → Option Effects
  | [] => some fx
  | blockIndex :: rest =>
    match cache blockIndex with
    | some block =>
      -- the `unwrap` of a part cut from a cached block
      match tryMakePart block blockOffset range with
      | some part =>
        cacheLoop blockSize cache respond range blockEnd (blockOffset + blockSize)
          { fx with parts := fx.parts ++ [part] } rest
      | none => none
    | none => getFromClient blockSize respond (range.trimStart blockOffset) blockIndex blockEnd fx

/-- `CachingRequest::get_from_cache`; `none` where it panics. -/
def getFromCache (blockSize : ℕ) (cache : ℕ → Option (List UInt8))
    (respond : ℕ → ℕ → List Part) (range : RequestRange) : Option Effects :=
  -- `block_indices_for_byte_range` divides by the block size
  if blockSize = 0 then none
  else
    let blockRange := blockIndicesForByteRange blockSize range
    cacheLoop blockSize cache respond range blockRange.2 (blockRange.1 * blockSize) ⟨[], [], none⟩
      (List.range' blockRange.1 (blockRange.2 - blockRange.1))

/-! ## What the composer keeps -/

/-- A block written to the cache at its offset, holding its bytes of the object `C`; it starts
inside the object. -/
structure PutBlock.Holds (C : List UInt8) (b : ℕ) (p : PutBlock) : Prop where
  blockOffset_eq : p.blockOffset = p.blockIndex * b
  bytes_eq : p.bytes = (C.drop (p.blockIndex * b)).take b
  lt_length : p.blockIndex * b < C.length

/-- Body parts one after the other from `start`, holding the bytes of `C` from `start` to `stop`:
what the client returns for a request of those bytes, cut anywhere. -/
def Splits (C : List UInt8) (start stop : ℕ) (ps : List Part) : Prop :=
  Contiguous start ps ∧ bytes ps = (C.drop start).take (stop - start)

/-- Parts that feed a reader the bytes of `C` from `start` to `stop`: non-empty, one after the
other, and together those bytes. What a request's producer must push. -/
structure Feeds (C : List UInt8) (start stop : ℕ) (ps : List Part) : Prop where
  nonempty : ∀ p ∈ ps, p.data ≠ []
  splits : Splits C start stop ps

section Splits

variable {C : List UInt8} {a b : ℕ} {ps : List Part}

/-- **The first part** of a split is the object's bytes where the split starts, and the rest
splits on from its end. -/
theorem splits_cons_iff {p : Part} :
    Splits C a b (p :: ps) ↔
      p.offset = a ∧ p.len ≤ b - a ∧ p.data = (C.drop a).take p.len ∧ Splits C (a + p.len) b ps := by
  constructor
  · rintro ⟨⟨hoff, hcont⟩, hbytes⟩
    rw [bytes_cons] at hbytes
    -- the part is the head of the slice, and the rest its tail
    have hp : p.data.length = p.len := rfl
    have hlen : p.len ≤ b - a := by
      have := congrArg List.length hbytes
      simp only [List.length_append, List.length_take, List.length_drop] at this
      omega
    have hhead := congrArg (List.take p.len) hbytes
    have htail := congrArg (List.drop p.len) hbytes
    rw [List.take_left' hp, List.take_take, Nat.min_eq_left hlen] at hhead
    rw [List.drop_left' hp, drop_slice] at htail
    refine ⟨hoff, hlen, hhead, hcont, ?_⟩
    rw [htail]
    congr 1
    omega
  · rintro ⟨hoff, hlen, hdata, hcont, hbytes⟩
    refine ⟨⟨hoff, hcont⟩, ?_⟩
    rw [bytes_cons, hdata, hbytes, take_drop_append_take_drop]
    congr 1
    omega

theorem Splits.totalLen_eq (h : Splits C a b ps) (hb : b ≤ C.length) : totalLen ps = b - a := by
  rw [← length_bytes, h.2, length_slice _ hb]

theorem Splits.append {c : ℕ} {qs : List Part} (hab : a ≤ b) (hbc : b ≤ c) (hc : c ≤ C.length)
    (h : Splits C a b ps) (h' : Splits C b c qs) : Splits C a c (ps ++ qs) := by
  have hlen := h.totalLen_eq (by omega)
  refine ⟨contiguous_append.2 ⟨h.1, ?_⟩, ?_⟩
  · rw [hlen, Nat.add_sub_cancel' hab]
    exact h'.1
  · rw [bytes_append, h.2, h'.2, slice_append_slice _ hab hbc]

theorem Feeds.nil (C : List UInt8) (a : ℕ) : Feeds C a a [] :=
  ⟨by simp, trivial, by simp⟩

theorem feeds_cons_iff {p : Part} :
    Feeds C a b (p :: ps) ↔ p.offset = a ∧ p.data ≠ [] ∧ p.len ≤ b - a ∧
      p.data = (C.drop a).take p.len ∧ Feeds C (a + p.len) b ps := by
  constructor
  · intro h
    obtain ⟨hoff, hlen, hdata, hrest⟩ := splits_cons_iff.1 h.splits
    exact ⟨hoff, h.nonempty p List.mem_cons_self, hlen, hdata,
      fun q hq => h.nonempty q (List.mem_cons_of_mem p hq), hrest⟩
  · rintro ⟨hoff, hne, hlen, hdata, hrest⟩
    refine ⟨fun q hq => ?_, splits_cons_iff.2 ⟨hoff, hlen, hdata, hrest.splits⟩⟩
    rcases List.mem_cons.1 hq with rfl | hq
    · exact hne
    · exact hrest.nonempty q hq

theorem Feeds.append {c : ℕ} {qs : List Part} (hab : a ≤ b) (hbc : b ≤ c) (hc : c ≤ C.length)
    (h : Feeds C a b ps) (h' : Feeds C b c qs) : Feeds C a c (ps ++ qs) := by
  refine ⟨fun p hp => ?_, h.splits.append hab hbc hc h'.splits⟩
  rcases List.mem_append.1 hp with hp | hp
  · exact h.nonempty p hp
  · exact h'.nonempty p hp

end Splits

namespace CachingPartComposer

section Composing

variable {C : List UInt8} {R : RequestRange} {b k a : ℕ}

/-- Where the composer of a request for the range `R`, from block `k` of size `b` on, stands in
the object `C`: its buffer holds the current block's bytes up to `offset`, the parts pushed cover
the bytes from `a` to `offset` trimmed to `R`, and every block written holds its bytes. -/
structure Composing (C : List UInt8) (R : RequestRange) (b k a : ℕ) (c : CachingPartComposer)
    (buffer : List UInt8) (offset : ℕ) (fx : Effects) : Prop where
  originalRange_eq : c.originalRange = R.trimStart (k * b)
  blockSize_eq : c.blockSize = b
  blockOffset_eq : c.blockOffset = c.blockIndex * b
  k_le : k ≤ c.blockIndex
  a_le : a ≤ k * b
  buffer_eq : buffer = (C.drop c.blockOffset).take buffer.length
  offset_eq : offset = c.blockOffset + buffer.length
  buffer_lt : buffer.length < b
  covers : Covers C R a offset fx.parts
  puts : ∀ p ∈ fx.puts, p.Holds C b
  error_eq : fx.error = none

theorem Composing.k_le_offset {c : CachingPartComposer} {buffer : List UInt8} {offset : ℕ}
    {fx : Effects} (h : Composing C R b k a c buffer offset fx) : k * b ≤ offset := by
  have hk : k * b ≤ c.blockIndex * b := Nat.mul_le_mul_right b h.k_le
  have := h.offset_eq
  have := h.blockOffset_eq
  omega

/-- The part cut at `offset` from the bytes there, pushed, keeps the cover. -/
theorem Composing.covers_push {c : CachingPartComposer} {buffer : List UInt8} {offset l : ℕ}
    {fx : Effects} (h : Composing C R b k a c buffer offset fx) (hend : R.endOffset ≤ C.length) :
    Covers C R a (offset + l)
      (fx.parts ++ (tryMakePart ((C.drop offset).take l) offset c.originalRange).toList) := by
  rw [h.originalRange_eq, tryMakePart_trimStart _ _ h.k_le_offset]
  exact h.covers.push (Nat.le_trans h.a_le h.k_le_offset) hend

/-- **The inner loop keeps the composer's place.** Cutting a body that holds the bytes of `C` at
`offset` moves it to the body's end. -/
theorem splitBody_composing {c : CachingPartComposer} {buffer : List UInt8} {offset : ℕ}
    {body : List UInt8} {fx : Effects} (h : Composing C R b k a c buffer offset fx)
    (hend : R.endOffset ≤ C.length) (hbody : body = (C.drop offset).take body.length)
    (hlen : offset + body.length ≤ C.length) :
    Composing C R b k a (c.splitBody buffer offset body fx).1
      (c.splitBody buffer offset body fx).2.1 (offset + body.length)
      (c.splitBody buffer offset body fx).2.2 := by
  fun_induction splitBody c buffer offset body fx with
  | case1 c buffer offset fx => simpa using h
  | case2 c buffer offset body fx hne =>
    rename_i remaining chunk fx' buffer' hlt
    simp only [buffer', chunk, remaining, List.length_append, List.length_take] at hlt
    -- the block is not full, so the whole body went into the buffer
    have hrem : min (c.blockSize - buffer.length) body.length = body.length := by omega
    have hchunk : chunk = (C.drop offset).take body.length := by
      simp only [chunk, remaining, hrem, List.take_length]
      exact hbody
    have hbuf := h.buffer_eq
    have hoff := h.offset_eq
    refine ⟨h.originalRange_eq, h.blockSize_eq, h.blockOffset_eq, h.k_le, h.a_le, ?_, ?_, ?_,
      ?_, h.puts, h.error_eq⟩
    · show buffer ++ chunk = (C.drop c.blockOffset).take (buffer ++ chunk).length
      rw [List.length_append, List.take_add, List.drop_drop, ← hbuf, hchunk, hoff,
        List.length_take, List.length_drop]
      congr 2
      omega
    · simp only [buffer', List.length_append, List.length_take, chunk, remaining, hrem]
      omega
    · simp only [buffer', List.length_append, List.length_take, chunk, remaining, hrem]
      rw [← h.blockSize_eq]
      omega
    · show Covers C R a (offset + body.length)
        (fx.parts ++ (tryMakePart chunk offset c.originalRange).toList)
      rw [hchunk]
      exact h.covers_push hend
  | case3 c buffer offset body fx hne =>
    rename_i remaining chunk fx' buffer' hfull fx'' c' ih
    simp only [buffer', chunk, remaining, List.length_append, List.length_take] at hfull
    have hb := h.blockSize_eq
    have hbuf := h.buffer_eq
    have hoff := h.offset_eq
    have hlt := h.buffer_lt
    -- the block is full: the chunk fills it up
    have hrem : remaining = b - buffer.length := by
      simp only [remaining]
      omega
    have hchunk : chunk = (C.drop offset).take remaining := by
      simp only [chunk]
      rw [hbody, List.take_take, Nat.min_eq_left (by simp only [remaining]; omega)]
    have hchunk_len : chunk.length = remaining := by
      simp only [chunk, List.length_take, remaining]
      omega
    have hcomp : Composing C R b k a c' [] (offset + chunk.length) fx'' := by
      refine ⟨h.originalRange_eq, hb, ?_, Nat.le_succ_of_le h.k_le, h.a_le, rfl, ?_, ?_, ?_, ?_,
        h.error_eq⟩
      · show c.blockOffset + c.blockSize = (c.blockIndex + 1) * b
        rw [h.blockOffset_eq, hb, Nat.succ_mul]
      · show offset + chunk.length = c.blockOffset + c.blockSize + 0
        omega
      · show 0 < b
        exact hb ▸ c.blockSize_pos
      · show Covers C R a (offset + chunk.length)
          (fx.parts ++ (tryMakePart chunk offset c.originalRange).toList)
        rw [hchunk_len, hchunk]
        exact h.covers_push hend
      · intro p hp
        rcases List.mem_append.1 hp with hp | hp
        · exact h.puts p hp
        · rw [List.mem_singleton.1 hp]
          refine ⟨h.blockOffset_eq, ?_, ?_⟩
          · show buffer ++ chunk = (C.drop (c.blockIndex * b)).take b
            rw [← h.blockOffset_eq, hchunk, hoff, hrem]
            nth_rewrite 1 [hbuf]
            rw [← List.drop_drop, ← List.take_add]
            congr 1
            omega
          · -- the full block lies within the body, so within the object
            show c.blockIndex * b < C.length
            have hbody_le : remaining ≤ body.length := Nat.min_le_right _ _
            rw [← h.blockOffset_eq]
            omega
    have hrest : body.drop remaining =
        (C.drop (offset + chunk.length)).take (body.drop remaining).length := by
      rw [hchunk_len, List.length_drop]
      nth_rewrite 1 [hbody]
      rw [drop_slice]
    have hend' : offset + chunk.length + (body.drop remaining).length = offset + body.length := by
      rw [hchunk_len, List.length_drop]
      simp only [remaining]
      omega
    have := ih hcomp hrest (by omega)
    rwa [hend'] at this

/-- **The outer loop keeps the composer's place.** Body parts one after the other from the
composer's place, holding the bytes of `C` up to `stop`, move it to `stop`, with no error and no
failed assertion. -/
theorem composeLoop_composing {c : CachingPartComposer} {buffer : List UInt8} {offset stop : ℕ}
    {fx : Effects} {ps : List Part} (h : Composing C R b k a c buffer offset fx)
    (hend : R.endOffset ≤ C.length) (hcont : Contiguous offset ps)
    (hbytes : bytes ps = (C.drop offset).take (stop - offset)) (hle : offset ≤ stop)
    (hstop : stop ≤ C.length) :
    ∃ c' buffer' fx', c.composeLoop buffer fx ps = some (.ok (c', buffer'), fx') ∧
      Composing C R b k a c' buffer' stop fx' := by
  induction ps generalizing c buffer offset fx with
  | nil =>
    -- no bytes are left: the stream ends at `stop`
    have hzero : stop - offset = 0 := by
      have := congrArg List.length hbytes
      simp only [bytes_nil, List.length_nil, List.length_take, List.length_drop] at this
      omega
    have hstop_eq : stop = offset := by omega
    exact ⟨c, buffer, fx, rfl, hstop_eq ▸ h⟩
  | cons p rest ih =>
    obtain ⟨hp, hcont⟩ := hcont
    have hlt : buffer.length < c.blockSize := h.blockSize_eq ▸ h.buffer_lt
    have hexpected : p.offset = c.blockOffset + buffer.length := hp.trans h.offset_eq
    -- the part holds the bytes at `offset`, the rest those after it
    rw [bytes_cons] at hbytes
    have hplen : p.data.length ≤ stop - offset := by
      have := congrArg List.length hbytes
      simp only [List.length_append, List.length_take, List.length_drop] at this
      omega
    have hdata : p.data = (C.drop offset).take p.data.length := by
      have := congrArg (List.take p.data.length) hbytes
      rwa [List.take_left, List.take_take, Nat.min_eq_left hplen] at this
    have hrest : bytes rest = (C.drop (offset + p.data.length)).take
        (stop - (offset + p.data.length)) := by
      have := congrArg (List.drop p.data.length) hbytes
      rw [List.drop_left, drop_slice] at this
      rw [this, Nat.sub_sub]
    have hsplit := splitBody_composing h hend hdata (by omega)
    simp only [composeLoop, hlt, if_true, hexpected, ne_eq, not_true_eq_false, if_false]
    rw [← h.offset_eq]
    exact ih hsplit hcont hrest (by omega)

/-- **`compose_parts` delivers.** From its first block, on a response that splits the bytes up
to `stop`, the object's end or a block boundary, `try_compose_parts` covers them, writes every
block it fills and the partial block at the object's end, and pushes no error; no assertion
fails. -/
theorem tryComposeParts_delivers {c : CachingPartComposer} {offset stop : ℕ} {fx : Effects}
    {ps : List Part} (h : Composing C R b k a c [] offset fx) (hsize : R.objectSize = C.length)
    (hend : R.endOffset ≤ C.length) (hsplits : Splits C offset stop ps) (hle : offset ≤ stop)
    (hstop : stop ≤ C.length) (hblock : stop = C.length ∨ stop % b = 0) :
    ∃ fx', c.tryComposeParts ps fx = some fx' ∧ Covers C R a stop fx'.parts ∧
      (∀ p ∈ fx'.puts, p.Holds C b) ∧ fx'.error = none := by
  obtain ⟨c', buffer', fx', hloop, hc'⟩ :=
    composeLoop_composing h hend hsplits.1 hsplits.2 hle hstop
  unfold tryComposeParts composeParts
  rw [hloop]
  by_cases hbuf : buffer' = []
  · simp only [hbuf, ne_eq, not_true_eq_false, if_false, Option.map_some]
    exact ⟨fx', rfl, hc'.covers, hc'.puts, hc'.error_eq⟩
  · -- a partial block is left, so the stream ended off a block boundary: at the object's end
    have hpos : 0 < buffer'.length := List.length_pos_of_ne_nil hbuf
    have hlt := hc'.buffer_lt
    have hlast : c'.blockOffset + buffer'.length = C.length := by
      rcases hblock with hs | hs
      · rw [← hs, hc'.offset_eq]
      · rw [hc'.offset_eq, hc'.blockOffset_eq, Nat.mul_add_mod_of_lt hlt] at hs
        omega
    have hobj : c'.originalRange.objectSize = C.length := by
      rw [hc'.originalRange_eq, RequestRange.trimStart_objectSize, hsize]
    simp only [hbuf, ne_eq, not_false_eq_true, if_true, hlast, hobj, Option.map_some]
    refine ⟨_, rfl, hc'.covers, ?_, hc'.error_eq⟩
    intro p hp
    rcases List.mem_append.1 hp with hp | hp
    · exact hc'.puts p hp
    · rw [List.mem_singleton.1 hp]
      refine ⟨hc'.blockOffset_eq, ?_, by rw [← hc'.blockOffset_eq]; omega⟩
      show buffer' = (C.drop (c'.blockIndex * b)).take b
      -- the block's bytes run to the object's end
      have hrest : (C.drop c'.blockOffset).length ≤ b := by
        rw [List.length_drop]
        omega
      rw [← hc'.blockOffset_eq, List.take_of_length_le hrest]
      nth_rewrite 1 [hc'.buffer_eq]
      exact List.take_of_length_le (by rw [List.length_drop]; omega)

end Composing

end CachingPartComposer

/-! ## The request task -/

section Task

variable {C : List UInt8} {R : RequestRange} {b : ℕ} {respond : ℕ → ℕ → List Part}

/-- **The client's part of the task.** From a cover of the bytes up to block `k` of the range,
the request for the blocks from `k` to `E` covers them up to block `E` or the object's end. -/
theorem getFromClient_delivers {a k E : ℕ} {fx : Effects} (hb : 0 < b)
    (hsize : R.objectSize = C.length) (hend : R.endOffset ≤ C.length)
    (hrespond : ∀ start stop, start ≤ stop → stop ≤ C.length →
      Splits C start stop (respond start stop))
    (hcov : Covers C R a (k * b) fx.parts) (hputs : ∀ p ∈ fx.puts, p.Holds C b)
    (herr : fx.error = none) (hak : a ≤ k * b) (hkE : k ≤ E) (hkn : k * b ≤ C.length) :
    ∃ fx', getFromClient b respond (R.trimStart (k * b)) k E fx = some fx' ∧
      Covers C R a (min (E * b) C.length) fx'.parts ∧ (∀ p ∈ fx'.puts, p.Holds C b) ∧
      fx'.error = none := by
  have hkE' : k * b ≤ E * b := Nat.mul_le_mul_right b hkE
  have hcomp : CachingPartComposer.Composing C R b k a ⟨R.trimStart (k * b), k, k * b, b, hb⟩ []
      (k * b) fx :=
    ⟨rfl, rfl, rfl, Nat.le_refl k, hak, rfl, rfl, hb, hcov, hputs, herr⟩
  -- the request is widened to block `E`, or cut at the object's end
  have hrange : (RequestRange.new C.length (k * b) (min (E * b) C.length - k * b)).endOffset =
      min (E * b) C.length := by
    simp only [RequestRange.new, RequestRange.endOffset]
    omega
  have hblock : min (E * b) C.length = C.length ∨ min (E * b) C.length % b = 0 := by
    rcases Nat.le_total (E * b) C.length with hle | hle
    · exact .inr (by rw [Nat.min_eq_left hle, Nat.mul_mod_left])
    · exact .inl (Nat.min_eq_right hle)
  unfold getFromClient
  simp only [hb, dif_pos, RequestRange.trimStart_objectSize, hsize, hrange]
  exact CachingPartComposer.tryComposeParts_delivers hcomp hsize hend
    (hrespond _ _ (by omega) (Nat.min_le_right _ _)) (by omega) (Nat.min_le_right _ _) hblock

/-- The blocks `block_indices_for_byte_range` gives, from `startBlock` to before `endBlock`: the
first holds the range's start, each starts before the range's end, and, unless the range is
empty, they reach its end. -/
structure BlockRange (b : ℕ) (R : RequestRange) (startBlock endBlock : ℕ) : Prop where
  start_le : startBlock * b ≤ R.start
  lt_start : R.start < (startBlock + 1) * b
  le_endBlock : startBlock ≤ endBlock
  lt_end : ∀ i, i < endBlock → i * b < R.endOffset
  end_le : R.start < R.endOffset → R.endOffset ≤ endBlock * b
  start_lt_end : startBlock < endBlock → R.start < R.endOffset

theorem blockRange_blockIndicesForByteRange (hb : 0 < b) (R : RequestRange) :
    BlockRange b R (blockIndicesForByteRange b R).1 (blockIndicesForByteRange b R).2 := by
  have hs := Nat.div_add_mod' R.start b
  have hsb := Nat.mod_lt R.start hb
  have he := Nat.div_add_mod' R.endOffset b
  have heb := Nat.mod_lt R.endOffset hb
  have hse := R.start_le_endOffset
  have hdiv : R.start / b ≤ R.endOffset / b := Nat.div_le_div_right hse
  have hsize : R.endOffset = R.start + R.size := rfl
  unfold blockIndicesForByteRange
  dsimp only
  split_ifs with hcond <;> dsimp only
  · -- the range ends inside a block, which is the last
    simp only [Bool.and_eq_true, Bool.not_eq_true', RequestRange.isEmpty, beq_eq_false_iff_ne,
      bne_iff_ne, ne_eq] at hcond
    refine ⟨by omega, by rw [Nat.succ_mul]; omega, by omega, fun i hi => ?_, fun _ => ?_,
      fun _ => by omega⟩
    · have := Nat.mul_le_mul_right b (Nat.le_of_lt_succ hi)
      omega
    · rw [Nat.succ_mul]
      omega
  · -- the range is empty or ends at a block boundary
    simp only [Bool.and_eq_true, Bool.not_eq_true', RequestRange.isEmpty, beq_eq_false_iff_ne,
      bne_iff_ne, ne_eq, not_and, Decidable.not_not] at hcond
    refine ⟨by omega, by rw [Nat.succ_mul]; omega, hdiv, fun i hi => ?_, fun hlt => ?_,
      fun hlt => ?_⟩
    · have := Nat.mul_le_mul_right b (Nat.succ_le_of_lt hi)
      rw [Nat.succ_mul] at this
      omega
    · have := hcond (by omega)
      omega
    · -- an empty range has no blocks
      by_contra hnot
      have hempty : R.start = R.endOffset := by omega
      rw [hempty] at hlt
      exact absurd hlt (Nat.lt_irrefl _)

/-- **The cache's part of the task.** From a cover of the range's bytes up to block `i`, the
loop over the blocks from `i` to `E`, through the cache and then the client, covers them all. -/
theorem cacheLoop_delivers {cache : ℕ → Option (List UInt8)} {startBlock E : ℕ} (hb : 0 < b)
    (hsize : R.objectSize = C.length) (hend : R.endOffset ≤ C.length)
    (hcache : ∀ i block, cache i = some block → block = (C.drop (i * b)).take b)
    (hrespond : ∀ start stop, start ≤ stop → stop ≤ C.length →
      Splits C start stop (respond start stop))
    (hblocks : BlockRange b R startBlock E) :
    ∀ m i fx, i + m = E → startBlock ≤ i → Covers C R (startBlock * b) (i * b) fx.parts →
      (∀ p ∈ fx.puts, p.Holds C b) → fx.error = none →
      ∃ fx', cacheLoop b cache respond R E (i * b) fx (List.range' i m) = some fx' ∧
        Covers C R (startBlock * b) R.endOffset fx'.parts ∧ (∀ p ∈ fx'.puts, p.Holds C b) ∧
        fx'.error = none := by
  have hstart := hblocks.start_le
  intro m
  induction m with
  | zero =>
    -- past the last block the cover reaches the range's end
    intro i fx hi _ hcov hputs herr
    refine ⟨fx, rfl, hcov.congr_end ?_, hputs, herr⟩
    by_cases hlt : R.start < R.endOffset
    · have := hblocks.end_le hlt
      rw [Nat.add_zero] at hi
      subst hi
      omega
    · omega
  | succ m ih =>
    intro i fx hi hsi hcov hputs herr
    have hiE : i < E := by omega
    have hie := hblocks.lt_end i hiE
    have hse := hblocks.start_lt_end (Nat.lt_of_le_of_lt hsi hiE)
    have hak : startBlock * b ≤ i * b := Nat.mul_le_mul_right b hsi
    simp only [List.range'_succ, cacheLoop]
    cases hblock : cache i with
    | some block =>
      -- a cached block holds bytes of the range, so a part is cut from it
      rw [hcache i block hblock]
      have hnext : R.start < (i + 1) * b :=
        Nat.lt_of_lt_of_le hblocks.lt_start (Nat.mul_le_mul_right b (Nat.succ_le_succ hsi))
      rw [Nat.succ_mul] at hnext
      have hcut : max R.start (i * b) < min (i * b + ((C.drop (i * b)).take b).length)
          R.endOffset := by
        simp only [List.length_take, List.length_drop]
        omega
      have hpush := hcov.push (l := b) hak hend
      rw [tryMakePart_eq, if_pos hcut] at hpush
      simp only [tryMakePart_eq, if_pos hcut]
      rw [← Nat.succ_mul] at hpush ⊢
      exact ih (i + 1) _ (by omega) (Nat.le_succ_of_le hsi) hpush hputs herr
    | none =>
      obtain ⟨fx', hclient, hcov', hputs', herr'⟩ :=
        getFromClient_delivers hb hsize hend hrespond hcov hputs herr hak (Nat.le_of_lt hiE)
          (by omega)
      refine ⟨fx', hclient, hcov'.congr_end ?_, hputs', herr'⟩
      have := hblocks.end_le hse
      omega

/-- From a cache that holds the object's blocks and a client that returns the bytes it is asked
for, the task feeds the range's bytes, writes blocks that hold their bytes, and pushes no
error. -/
theorem getFromCache_feeds {cache : ℕ → Option (List UInt8)} (hb : 0 < b)
    (hsize : R.objectSize = C.length) (hend : R.endOffset ≤ C.length)
    (hcache : ∀ i block, cache i = some block → block = (C.drop (i * b)).take b)
    (hrespond : ∀ start stop, start ≤ stop → stop ≤ C.length →
      Splits C start stop (respond start stop)) :
    ∃ fx, getFromCache b cache respond R = some fx ∧ Feeds C R.start R.endOffset fx.parts ∧
      (∀ p ∈ fx.puts, p.Holds C b) ∧ fx.error = none := by
  have hblocks := blockRange_blockIndicesForByteRange hb R
  obtain ⟨fx, hloop, hcov, hputs, herr⟩ :=
    cacheLoop_delivers hb hsize hend hcache hrespond hblocks _ _ ⟨[], [], none⟩
      (Nat.add_sub_cancel' hblocks.le_endBlock) (Nat.le_refl _) (Covers.nil _) (by simp) rfl
  have hmax : max ((blockIndicesForByteRange b R).1 * b) R.start = R.start :=
    Nat.max_eq_right hblocks.start_le
  refine ⟨fx, by simpa [getFromCache, Nat.pos_iff_ne_zero.1 hb] using hloop,
    ⟨hcov.nonempty, hmax ▸ hcov.contiguous, ?_⟩, hputs, herr⟩
  rw [hcov.bytes_eq, hmax, Nat.min_self]

end Task

/-- What a caching request task delivers: the parts it pushes are non-empty, one after the other
from the range's start, and together the range's bytes of the object; every block it writes to
the cache holds its bytes of the object, whole unless it is the object's last; and it pushes no
error. -/
structure Delivers (C : List UInt8) (b : ℕ) (R : RequestRange) (fx : Effects) : Prop where
  nonempty : ∀ p ∈ fx.parts, p.data ≠ []
  contiguous : Contiguous R.start fx.parts
  bytes_eq : bytes fx.parts = (C.drop R.start).take (R.endOffset - R.start)
  puts : ∀ p ∈ fx.puts, p.Holds C b
  whole_or_last : ∀ p ∈ fx.puts, p.bytes.length = b ∨ p.blockOffset + p.bytes.length = C.length
  error_eq : fx.error = none

theorem caching_stream_delivers (C : List UInt8) (b : ℕ) (hb : 0 < b) (R : RequestRange)
    (hsize : R.objectSize = C.length) (hend : R.endOffset ≤ C.length)
    (cache : ℕ → Option (List UInt8))
    (hcache : ∀ i block, cache i = some block → block = (C.drop (i * b)).take b)
    (respond : ℕ → ℕ → List Part)
    (hrespond : ∀ start stop, start ≤ stop → stop ≤ C.length →
      Splits C start stop (respond start stop)) :
    ∃ fx, getFromCache b cache respond R = some fx ∧ Delivers C b R fx := by
  obtain ⟨fx, hget, hfeeds, hputs, herr⟩ := getFromCache_feeds hb hsize hend hcache hrespond
  refine ⟨fx, hget, hfeeds.nonempty, hfeeds.splits.1, hfeeds.splits.2, hputs, fun p hp => ?_, herr⟩
  -- a block is whole unless the object ends inside it
  have hlt := (hputs p hp).lt_length
  rw [(hputs p hp).bytes_eq, (hputs p hp).blockOffset_eq]
  simp only [List.length_take, List.length_drop]
  omega

/-- A read of bytes 1 to 4 of a five-byte object in blocks of two: block 0 is cached, block 1 comes
from the client. -/
theorem caching_stream_delivers_one_hit :
    (∀ i block, (if i = 0 then some [1, 2] else none) = some block →
      block = (([1, 2, 3, 4, 5] : List UInt8).drop (i * 2)).take 2) ∧
    ∃ fx, getFromCache 2 (fun i => if i = 0 then some [1, 2] else none)
        (fun start stop => [⟨start, (([1, 2, 3, 4, 5] : List UInt8).drop start).take (stop - start)⟩])
        ⟨5, 1, 3⟩ = some fx ∧
      Delivers [1, 2, 3, 4, 5] 2 ⟨5, 1, 3⟩ fx :=
  have hcache : ∀ i block, (if i = 0 then some [1, 2] else none) = some block →
      block = (([1, 2, 3, 4, 5] : List UInt8).drop (i * 2)).take 2 := by
    intro i block h
    split_ifs at h with hi
    subst hi
    cases h
    rfl
  ⟨hcache, caching_stream_delivers [1, 2, 3, 4, 5] 2 (by decide) ⟨5, 1, 3⟩ rfl (by decide) _ hcache _
    (fun start stop _ _ => ⟨⟨rfl, trivial⟩, by simp [bytes]⟩)⟩

end MountpointS3.Prefetch
