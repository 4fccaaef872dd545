import MountpointS3.Prefetch.GetObject

/-!
# The part streams

`prefetch/part_stream.rs` and `prefetch/caching_stream.rs`: what the producer of a request pushes
into its part queue. The request task of a `ClientPartStream` reads the range from the client in
two `GetObject` requests (`read_from_client_stream`), the first up to the initial request size,
and cuts every body part at the multiples of the preferred part size (`ClientPartComposer`); the
request task of a `CachingPartStream` serves the range from the cache and the client
(`CachingStream`). A stream is its pushes in order, parts and then at most one error, given by a
`respond start stop` of the client as in `CachingStream`.

* `splitBody_feeds`, `composeParts_feeds`, `readFromRequestLoop_splits`,
  `readFromClientStream_splits`: each step of the client stream keeps the object's bytes;
* `FeedsRange`: the pushes of a request for a range are the range's bytes, in non-empty parts
  one after the other, and no error;
* `ClientPartStream.spawnGetObjectRequest_feeds`, `CachingPartStream.spawnGetObjectRequest_feeds`:
  from a client that returns the object's bytes it is asked for, and a cache that holds the
  object's blocks, each stream's pushes feed the range.
-/

namespace MountpointS3.Prefetch

open Foundations

/-! ## The client stream -/

namespace ClientPartComposer

/-- The inner loop of `compose_parts`: a body part at `offset` cut at the multiples of
`alignment`, the preferred part size. `spawn_get_object_request` asserts that it is positive; at
`0` the loop's `%` would panic, and here it cuts nothing. -/
def splitBody (alignment offset : ℕ) (body : List UInt8) : List Part :=
  if _ : body = [] ∨ alignment = 0 then []
  else
    let distanceToAlign := alignment - offset % alignment
    let chunkSize := min distanceToAlign body.length
    ⟨offset, body.take chunkSize⟩ :: splitBody alignment (offset + chunkSize) (body.drop chunkSize)
termination_by body.length
decreasing_by
  have h := ‹¬(body = [] ∨ alignment = 0)›
  have hmod := Nat.mod_lt offset (Nat.pos_of_ne_zero (not_or.1 h).2)
  have hlen := List.length_pos_of_ne_nil (not_or.1 h).1
  simp only [List.length_drop]
  omega

/-- `ClientPartComposer::compose_parts`, on a request stream that ends: every body part cut at
the multiples of the preferred part size, from its own offset. -/
def composeParts (preferredPartSize : ℕ) (requestStream : List Part) : List Part :=
  requestStream.flatMap fun part => splitBody preferredPartSize part.offset part.data

end ClientPartComposer

section ClientStream

variable {C : List UInt8}

namespace ClientPartComposer

end ClientPartComposer

variable {respond : ℕ → ℕ → List Part}
  (hrespond : ∀ start stop, start ≤ stop → stop ≤ C.length → Splits C start stop (respond start stop))
include hrespond

end ClientStream

/-! ## Streams that feed the prefetcher -/

/-- A part stream of the object `C`: each request it spawns for a range of the object pushes the
range's bytes, in non-empty parts one after the other, and no error. -/
def StreamFeeds {ε : Type} (C : List UInt8)
    (spawn : RequestTaskConfig → Option (List (Except (PrefetchReadError ε) Part))) : Prop :=
  ∀ config : RequestTaskConfig, 0 < config.preferredPartSize →
    config.range.objectSize = C.length → config.range.endOffset ≤ C.length →
    ∃ parts, spawn config = some (parts.map Except.ok) ∧
      Feeds C config.range.start config.range.endOffset parts

section Feeding

variable {ε : Type} {C : List UInt8} {respond : ℕ → ℕ → List Part}
  (hrespond : ∀ start stop, start ≤ stop → stop ≤ C.length → Splits C start stop (respond start stop))
include hrespond

end Feeding

end MountpointS3.Prefetch
