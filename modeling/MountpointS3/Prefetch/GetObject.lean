import MountpointS3.Foundations.Run
import MountpointS3.Foundations.Slice
import MountpointS3.Prefetch.CachingStream
import MountpointS3.Prefetch.PartQueue
import MountpointS3.Prefetch.SeekWindow

/-!
# Reads of a prefetch request

`prefetch.rs`, with the `RequestTask` of `prefetch/task.rs`: a `PrefetchGetObject` serves the
reads of one file handle from the request in flight (a `RequestTask`, whose part queue the
request's producer fills) and from its backward seek window. A read where the last one ended
reads on; a read ahead within the request's read window skips forward through the queue; a read
back within the seek window puts the window's last parts back in front of the queue; any other
read, and any error, resets the prefetcher, and a new request starts at the offset read.

A call of `read` waits on the part queue, so a run is a sequence of steps (`PrefetchRun.step`):
a call starts and goes on to its first wait (`PrefetchGetObject.read`), each part it takes from
the queue runs it to its next wait or its return (`PrefetchGetObject.readPart`), and the
producer's pushes come in between in any order. The read window end of the request's
backpressure controller, which `try_seek_forward` reads, is an input of each call.

* `PrefetcherServes`: the seek window ends where the next sequential read starts and holds the
  object's bytes before it, it is empty when no request is in flight, and the request's queue,
  up to an error its producer pushed, holds the object's bytes from there on;
* `CallServes`: a call in progress has read the object's bytes from its offset, and a call that
  returned `Ok` returned the object's bytes from its offset, as many as asked, up to the end;
* `Serves.step`: every step keeps both, and none panics, while the producer pushes the object's
  bytes in order and nothing after an error;
* `prefetcher_reads_object`: so along every run.
-/

namespace MountpointS3.Prefetch

open Foundations

/-! ## The model -/

/-- `PartOperationError`, of the offset check; the object id and the checksum are left out. -/
inductive PartOperationError
  | offsetMismatch (actual requested : ℕ)
  deriving DecidableEq, Repr

/-- `PrefetchReadError`, over the error `ε` of the object client; the integrity errors are left
out with the checksums. -/
inductive PrefetchReadError (ε : Type)
  | getRequestFailed (source : ε)
  | getRequestReturnedWrongOffset (offset expectedOffset : ℕ)
  | getRequestTerminatedUnexpectedly
  | partReadFailed (e : PartOperationError)
  | backpressurePreconditionFailed
  | readWindowIncrement
  deriving DecidableEq, Repr

/-- `Part::into_bytes`: the part's bytes, if it lies at `offset`. -/
def Part.intoBytes (p : Part) (offset : ℕ) : Except PartOperationError (List UInt8) :=
  if p.offset ≠ offset then .error (.offsetMismatch p.offset offset) else .ok p.data

/-- `PrefetcherConfig`. -/
structure PrefetcherConfig where
  maxReadWindowSize : ℕ
  sequentialPrefetchMultiplier : ℕ
  maxForwardSeekWaitDistance : ℕ
  maxBackwardSeekDistance : ℕ
  initialRequestSize : ℕ
  deriving DecidableEq, Repr

/-- What the prefetcher reads of the object client: `read_part_size` and
`initial_read_window_size`. -/
structure PartStreamClient where
  readPartSize : ℕ
  initialReadWindowSize : Option ℕ
  deriving DecidableEq, Repr

/-- `RequestTaskConfig`; the bucket, the object id and the handle id are left out. -/
structure RequestTaskConfig where
  range : RequestRange
  readPartSize : ℕ
  preferredPartSize : ℕ
  initialRequestSize : ℕ
  maxReadWindowSize : ℕ
  readWindowSizeMultiplier : ℕ

/-- `RequestTask`. Its producer, which pushes into the part queue, is the environment, and of its
backpressure controller only the read window end is read, as an input of each call. -/
structure RequestTask (ε : Type) where
  remaining : ℕ
  range : RequestRange
  partQueue : PartQueue (PrefetchReadError ε)

namespace RequestTask

variable {ε : Type}

/-- `RequestTask::from_handle`, with the new part queue of the request spawned. -/
def fromHandle (range : RequestRange) : RequestTask ε := ⟨range.size, range, .new⟩

/-- `RequestTask::read`; `none` where the part queue does not return. The feedback it sends to
the backpressure controller always succeeds. -/
def read (task : RequestTask ε) (length : ℕ) :
    Option (Except (PrefetchReadError ε) Part × RequestTask ε) :=
  (task.partQueue.read length).map fun (res, q) =>
    match res with
    | .ok part => (.ok part, { task with partQueue := q, remaining := task.remaining - part.len })
    | .error e => (.error e, { task with partQueue := q })

/-- `RequestTask::available_offset`. -/
def availableOffset (task : RequestTask ε) : ℕ := task.range.start + task.partQueue.bytesReceived

end RequestTask

/-- `PrefetchGetObject`. The bucket, the object id, the handle id and the memory limiter are left
out, and so are `sequential_read_start_offset`, which only the metrics read, and
`next_request_offset`, which nothing reads. -/
structure PrefetchGetObject (ε : Type) where
  config : PrefetcherConfig
  client : PartStreamClient
  backpressureTask : Option (RequestTask ε)
  backwardSeekWindow : SeekWindow
  preferredPartSize : ℕ
  nextSequentialReadOffset : ℕ
  size : ℕ

/-- Where the call of `read` on a prefetcher is. -/
inductive ReadCall (ε : Type)
  /-- No call has been made. -/
  | idle
  /-- In the loop of `try_seek_forward`, with `seekDistance` bytes left to skip. -/
  | seeking (offset length toRead seekDistance : ℕ)
  /-- In the loop of `try_read`, with `toRead` bytes left to read and the response so far. -/
  | reading (offset length toRead : ℕ) (response : List UInt8)
  /-- Returned `result`. -/
  | returned (offset length : ℕ) (result : Except (PrefetchReadError ε) (List UInt8))

namespace ReadCall

variable {ε : Type}

/-- Whether a call is in progress. -/
def inProgress : ReadCall ε → Bool
  | seeking .. | reading .. => true
  | idle | returned .. => false

/-- The test of the loop of `try_read`: it goes on while bytes are left to read. -/
def loop (offset length toRead : ℕ) (response : List UInt8) : ReadCall ε :=
  if 0 < toRead then reading offset length toRead response
  else returned offset length (.ok response)

end ReadCall

namespace PrefetchGetObject

variable {ε : Type}

/-- `PrefetchGetObject::new`; `none` where `SeekWindow::new` panics. -/
def new (client : PartStreamClient) (config : PrefetcherConfig) (size : ℕ) :
    Option (PrefetchGetObject ε) :=
  (SeekWindow.new config.maxBackwardSeekDistance).map fun window =>
    ⟨config, client, none, window, 128 * 1024, 0, size⟩

/-- `reset_prefetch_to_offset`. -/
def resetPrefetchToOffset (self : PrefetchGetObject ε) (offset : ℕ) : PrefetchGetObject ε :=
  { self with
    backpressureTask := none
    backwardSeekWindow := self.backwardSeekWindow.clear
    nextSequentialReadOffset := offset }

/-- `spawn_read_backpressure_request`: the config of the request it spawns. -/
def spawnReadBackpressureRequest (self : PrefetchGetObject ε) :
    Except (PrefetchReadError ε) RequestTaskConfig :=
  let start := self.nextSequentialReadOffset
  let objectSize := self.size
  let range := RequestRange.new objectSize start objectSize
  match self.client.initialReadWindowSize with
  | some value =>
    if value = 0 then .error .backpressurePreconditionFailed
    else .ok ⟨range, self.client.readPartSize, self.preferredPartSize,
      self.config.initialRequestSize, self.config.maxReadWindowSize,
      self.config.sequentialPrefetchMultiplier⟩
  | none => .error .backpressurePreconditionFailed

/-- What `read` makes of an error of `try_read`: the prefetcher is reset to the offset read. -/
def fail (self : PrefetchGetObject ε) (offset length : ℕ) (e : PrefetchReadError ε) :
    PrefetchGetObject ε × ReadCall ε :=
  (self.resetPrefetchToOffset offset, .returned offset length (.error e))

/-- `try_read` from its `assert_eq!` to the test of its loop, spawning a request if none is in
flight. `none` where the assertion fails. -/
def readFrom (self : PrefetchGetObject ε) (offset length toRead : ℕ) :
    Option (PrefetchGetObject ε × ReadCall ε) :=
  if self.nextSequentialReadOffset ≠ offset then none
  else
    match self.backpressureTask with
    | some _ => some (self, .loop offset length toRead [])
    | none =>
      match self.spawnReadBackpressureRequest with
      | .error e => some (self.fail offset length e)
      | .ok config =>
        some ({ self with backpressureTask := some (.fromHandle config.range) },
          .loop offset length toRead [])

/-- The checks of `try_seek_forward` before its loop: a request is in flight, the offset is in
its read window, and the bytes up to it are in its queue or due within
`max_forward_seek_wait_distance`. -/
def seekForwardServed (self : PrefetchGetObject ε) (offset readWindowEndOffset : ℕ) : Bool :=
  match self.backpressureTask with
  | none => false
  | some task =>
    if offset ≥ readWindowEndOffset then false
    else
      let availableSoonOffset := task.availableOffset + self.config.maxForwardSeekWaitDistance
      if offset ≥ availableSoonOffset then false else true

/-- `try_seek_backward`: the window's last bytes go back in front of the request's queue.
`none` where it panics. -/
def trySeekBackward (self : PrefetchGetObject ε) (offset : ℕ) :
    Option (Bool × PrefetchGetObject ε) :=
  match self.backpressureTask with
  | none => some (false, self)
  | some task =>
    let backwardsLengthNeeded := self.nextSequentialReadOffset - offset
    (self.backwardSeekWindow.readBack backwardsLengthNeeded).bind fun (parts, window) =>
      match parts with
      | none => some (false, { self with backwardSeekWindow := window })
      | some parts =>
        -- `RequestTask::push_front` also counts the parts back into the remaining bytes
        (RequestTask.pushFront task.partQueue parts).map fun q =>
          (true, { self with
            backpressureTask := some { task with
              partQueue := q, remaining := task.remaining + totalLen parts }
            backwardSeekWindow := window
            nextSequentialReadOffset := offset })

/-- A call of `read(offset, length)`, to its first wait: `try_read` to its loop, or to the loop of
`try_seek_forward`. `readWindowEndOffset` is the read window end of the request in flight.
`none` where it panics. -/
def read (self : PrefetchGetObject ε) (offset length readWindowEndOffset : ℕ) :
    Option (PrefetchGetObject ε × ReadCall ε) :=
  let maxPreferredPartSize := 1024 * 1024
  let self := { self with
    preferredPartSize := min (max self.preferredPartSize length) maxPreferredPartSize }
  let remaining := self.size - offset
  if remaining = 0 then some (self, .returned offset length (.ok []))
  else
    let toRead := min length remaining
    if self.nextSequentialReadOffset ≠ offset then
      if offset > self.nextSequentialReadOffset then
        if self.seekForwardServed offset readWindowEndOffset then
          some (self, .seeking offset length toRead (offset - self.nextSequentialReadOffset))
        else (self.resetPrefetchToOffset offset).readFrom offset length toRead
      else
        (self.trySeekBackward offset).bind fun (sought, self) =>
          if sought then self.readFrom offset length toRead
          else (self.resetPrefetchToOffset offset).readFrom offset length toRead
    else self.readFrom offset length toRead

/-- The call in progress takes the next part from the request's queue and goes on to its next
wait or its return: one iteration of the loop of `try_seek_forward` or of `try_read`. A call that
finds the queue empty waits, and nothing changes. `none` where it panics. -/
def readPart (self : PrefetchGetObject ε) : ReadCall ε → Option (PrefetchGetObject ε × ReadCall ε)
  | .seeking offset length toRead seekDistance =>
    match self.backpressureTask with
    | none => some (self, .seeking offset length toRead seekDistance)
    | some task =>
      if task.partQueue.failed then none
      else
        match task.read seekDistance with
        | none => some (self, .seeking offset length toRead seekDistance)
        | some (.error e, _) => some (self.fail offset length e)
        | some (.ok part, task) =>
          (self.backwardSeekWindow.push part).bind fun window =>
            let self := { self with
              backpressureTask := some task
              backwardSeekWindow := window
              nextSequentialReadOffset := self.nextSequentialReadOffset + part.len }
            let seekDistance := seekDistance - part.len
            if 0 < seekDistance then some (self, .seeking offset length toRead seekDistance)
            else self.readFrom offset length toRead
  | .reading offset length toRead response =>
    match self.backpressureTask with
    | none => some (self, .returned offset length (.ok response))
    | some task =>
      if task.partQueue.failed then none
      else
        match task.read toRead with
        | none => some (self, .reading offset length toRead response)
        | some (.error e, _) => some (self.fail offset length e)
        | some (.ok part, task) =>
          (self.backwardSeekWindow.push part).bind fun window =>
            let self := { self with backpressureTask := some task, backwardSeekWindow := window }
            match part.intoBytes self.nextSequentialReadOffset with
            | .error e => some (self.fail offset length (.partReadFailed e))
            | .ok partBytes =>
              let self := { self with
                nextSequentialReadOffset := self.nextSequentialReadOffset + partBytes.length }
              -- a whole read from one part returns that part's bytes as they are
              if response.isEmpty ∧ partBytes.length = toRead then
                some (self, .returned offset length (.ok partBytes))
              else
                some (self, .loop offset length (toRead - partBytes.length) (response ++ partBytes))
  | call => some (self, call)

/-- `PartQueueProducer::push` by the producer of the request in flight; with no request in
flight the channel is closed and the part is dropped. -/
def push (self : PrefetchGetObject ε) (part : Except (PrefetchReadError ε) Part) :
    PrefetchGetObject ε :=
  match self.backpressureTask with
  | none => self
  | some task =>
    { self with backpressureTask := some { task with partQueue := task.partQueue.push part } }

end PrefetchGetObject

/-- What happens at a file handle's prefetcher. -/
inductive PrefetchEvent (ε : Type)
  /-- A call of `read(offset, length)` starts; `readWindowEndOffset` is the read window end of the
  backpressure controller of the request in flight. -/
  | read (offset length readWindowEndOffset : ℕ)
  /-- The call in progress takes the next part from the request's queue. -/
  | readPart
  /-- The producer of the request in flight pushes a part, or an error. -/
  | push (part : Except (PrefetchReadError ε) Part)

/-- A prefetcher and the call of `read` on it. -/
structure PrefetchRun (ε : Type) where
  prefetcher : PrefetchGetObject ε
  call : ReadCall ε

namespace PrefetchRun

variable {ε : Type}

/-- `Prefetcher::prefetch` of an object of `size` bytes, before any read. -/
def new (client : PartStreamClient) (config : PrefetcherConfig) (size : ℕ) :
    Option (PrefetchRun ε) :=
  (PrefetchGetObject.new client config size).map fun p => ⟨p, .idle⟩

/-- One event; `none` once one has panicked. A call of `read` starts only when none is in
progress: the handle's reads hold its lock. -/
def step : Option (PrefetchRun ε) → PrefetchEvent ε → Option (PrefetchRun ε)
  | none, _ => none
  | some r, .read offset length readWindowEndOffset =>
    if r.call.inProgress then some r
    else (r.prefetcher.read offset length readWindowEndOffset).map fun (p, c) => ⟨p, c⟩
  | some r, .readPart => (r.prefetcher.readPart r.call).map fun (p, c) => ⟨p, c⟩
  | some r, .push part => some { r with prefetcher := r.prefetcher.push part }

/-- The producer of the request in flight pushes the object's bytes in order from the request's
start, in non-empty parts, and nothing after an error. -/
def Produces (C : List UInt8) : Option (PrefetchRun ε) → PrefetchEvent ε → Prop
  | some r, .push (.ok part) =>
    match r.prefetcher.backpressureTask with
    | some task => (∀ x ∈ task.partQueue.channel, x.isOk) ∧ part.data ≠ [] ∧
        part.offset = task.availableOffset ∧ part.data = (C.drop part.offset).take part.len
    | none => True
  | _, _ => True

instance decidableProduces (C : List UInt8) : ∀ s e, Decidable (Produces (ε := ε) C s e)
  | none, _ => isTrue trivial
  | some _, .read .. => isTrue trivial
  | some _, .readPart => isTrue trivial
  | some _, .push (.error _) => isTrue trivial
  | some r, .push (.ok part) =>
    match h : r.prefetcher.backpressureTask with
    | none => isTrue (by simp [Produces, h])
    | some task =>
      decidable_of_iff ((∀ x ∈ task.partQueue.channel, x.isOk) ∧ part.data ≠ [] ∧
        part.offset = task.availableOffset ∧ part.data = (C.drop part.offset).take part.len)
        (by simp [Produces, h])

end PrefetchRun


/-! ## The seek window of a reader -/

/-- The parts lie one after the other, end at `e`, and hold the object's bytes. -/
structure EndsAt (C : List UInt8) (e : ℕ) (ps : List Part) : Prop where
  le : totalLen ps ≤ e
  contiguous : Contiguous (e - totalLen ps) ps
  bytes_eq : bytes ps = (C.drop (e - totalLen ps)).take (totalLen ps)

namespace EndsAt

variable {C : List UInt8} {e : ℕ}

theorem nil (C : List UInt8) (e : ℕ) : EndsAt C e [] := ⟨by simp, by simp, by simp⟩

/-- A part at the end, holding the object's bytes there, extends the parts. -/
theorem append {ps : List Part} (h : EndsAt C e ps) {part : Part} (hoff : part.offset = e)
    (hdata : part.data = (C.drop e).take part.len) : EndsAt C (e + part.len) (ps ++ [part]) := by
  have hle := h.le
  have hstart : e + part.len - totalLen (ps ++ [part]) = e - totalLen ps := by simp; omega
  refine ⟨by simp; omega, ?_, ?_⟩
  · rw [hstart, contiguous_append]
    exact ⟨h.contiguous, by simp [hoff, Nat.sub_add_cancel hle]⟩
  · have hjoin := take_drop_append_take_drop C (e - totalLen ps) (totalLen ps) part.len
    rw [Nat.sub_add_cancel hle] at hjoin
    rw [hstart, bytes_append, h.bytes_eq, bytes_cons, bytes_nil, List.append_nil, hdata, hjoin]
    simp

/-- Parts dropped from the front leave parts that end where they did. -/
theorem of_append {dropped kept : List Part} (h : EndsAt C e (dropped ++ kept)) :
    EndsAt C e kept := by
  have hle := h.le
  have hcont := h.contiguous
  have hb := congrArg (List.drop (totalLen dropped)) h.bytes_eq
  rw [totalLen_append] at hle hcont hb
  have hstart : e - (totalLen dropped + totalLen kept) + totalLen dropped = e - totalLen kept := by
    omega
  refine ⟨by omega, ?_, ?_⟩
  · rw [← hstart]
    exact (contiguous_append.1 hcont).2
  · rw [bytes_append, List.drop_left' (length_bytes dropped), drop_slice, Nat.add_sub_cancel_left,
      hstart] at hb
    exact hb

/-- The last `k` bytes read back from the parts: what is kept ends `k` bytes earlier, and what is
read ends where the parts ended. -/
theorem readBack {w w' : SeekWindow} {k : ℕ} {read : List Part} (hw : w.Wf)
    (h : EndsAt C e w.parts) (hk : k ≤ w.currentSize) (hr : w.ReadsBack k read w') :
    EndsAt C (e - k) w'.parts ∧ EndsAt C e read := by
  have hT := hw.size_eq
  have hkept : totalLen w'.parts = w.currentSize - k := by
    rw [← hr.wf.size_eq, hr.currentSize_eq]
  have hle := h.le
  have hcont := contiguous_append.1 (hr.contiguous _ h.contiguous)
  have hsplit : e - totalLen w.parts + totalLen w'.parts = e - k := by omega
  refine ⟨⟨by omega, ?_, ?_⟩, ⟨by rw [hr.totalLen_eq]; omega, ?_, ?_⟩⟩
  · rw [show e - k - totalLen w'.parts = e - totalLen w.parts by omega]
    exact hcont.1
  · rw [hr.bytes_kept, h.bytes_eq, List.take_take, hkept, ← hT,
      show e - k - (w.currentSize - k) = e - w.currentSize by omega]
    congr 1
    omega
  · rw [hr.totalLen_eq, ← hsplit]
    exact hcont.2
  · rw [hr.bytes_read, h.bytes_eq, drop_slice, hr.totalLen_eq, ← hT,
      show e - w.currentSize + (w.currentSize - k) = e - k by omega]
    congr 1
    omega

end EndsAt

namespace SeekWindow

/-- The loop of `read_back` cuts non-empty parts into non-empty parts: a part it splits leaves a
head of the bytes not wanted and a tail of the bytes wanted, and it runs only while some are. -/
theorem readBackLoop_nonempty {length : ℕ} {back : List Part} {currentSize : ℕ}
    {result : List Part} (hback : ∀ p ∈ back, p.data ≠ []) (hresult : ∀ p ∈ result, p.data ≠ [])
    {out : List Part × ℕ × List Part}
    (h : readBackLoop length back currentSize result = some out) :
    (∀ p ∈ out.1, p.data ≠ []) ∧ ∀ p ∈ out.2.2, p.data ≠ [] := by
  fun_induction readBackLoop length back currentSize result generalizing out with
  | case1 back currentSize result =>
    cases h
    exact ⟨hback, hresult⟩
  | case2 length currentSize result hzero => cases h
  | case3 length currentSize result hzero part back hsplit split ih =>
    have hpart := hback part (by simp)
    have hhead : split.1.data ≠ [] := by
      simp only [split, Part.splitOff, ne_eq, List.take_eq_nil_iff, not_or]
      exact ⟨by omega, hpart⟩
    have htail : split.2.data ≠ [] := by
      simp only [split, Part.splitOff, ne_eq, List.drop_eq_nil_iff]
      simp only [Part.len] at hsplit ⊢
      omega
    refine ih (fun p hp => ?_) (fun p hp => ?_) h
    · rcases List.mem_cons.1 hp with rfl | hp
      · exact hhead
      · exact hback p (List.mem_cons_of_mem _ hp)
    · rcases List.mem_cons.1 hp with rfl | hp
      · exact htail
      · exact hresult p hp
  | case4 length currentSize result hzero part back hfits ih =>
    refine ih (fun p hp => hback p (List.mem_cons_of_mem _ hp)) (fun p hp => ?_) h
    rcases List.mem_cons.1 hp with rfl | hp
    · exact hback _ (by simp)
    · exact hresult p hp

end SeekWindow

/-- The seek window of a reader at `e`: well formed, with non-empty parts that end at `e` and
hold the object's bytes. -/
structure WindowServes (C : List UInt8) (e : ℕ) (w : SeekWindow) : Prop where
  wf : w.Wf
  nonempty : ∀ p ∈ w.parts, p.data ≠ []
  ends : EndsAt C e w.parts

namespace WindowServes

variable {C : List UInt8} {e : ℕ} {w : SeekWindow}

theorem clear (hw : w.Wf) (C : List UInt8) (e : ℕ) : WindowServes C e w.clear :=
  ⟨hw.clear, by simp [SeekWindow.clear], EndsAt.nil C e⟩

/-- A push of the part that starts at `e`, holding the object's bytes there. -/
theorem push (h : WindowServes C e w) {part : Part} (hne : part.data ≠ []) (hoff : part.offset = e)
    (hdata : part.data = (C.drop e).take part.len) :
    ∃ w', w.push part = some w' ∧ WindowServes C (e + part.len) w' := by
  have hends := h.ends.append hoff hdata
  obtain ⟨w', hpush, hw', -, hover, hkept⟩ := SeekWindow.push_spec h.wf ⟨_, hends.contiguous⟩
  rcases Nat.lt_or_ge w.maxSize part.len with hbig | hfits
  · -- the part alone is over the maximum: the window is emptied
    have hempty := hover hbig
    exact ⟨w', hpush, hw', by simp [hempty], hempty ▸ EndsAt.nil C _⟩
  · obtain ⟨dropped, kept, hparts, hparts'⟩ := hkept hfits
    rw [hparts, List.append_assoc] at hends
    refine ⟨w', hpush, hw', fun p hp => ?_, by rw [hparts']; exact hends.of_append⟩
    rw [hparts'] at hp
    rcases List.mem_append.1 hp with hp | hp
    · exact h.nonempty p (hparts ▸ List.mem_append_right _ hp)
    · exact (List.mem_singleton.1 hp) ▸ hne

/-- `read_back(k)` within the window: the window keeps its bytes up to `e - k`, and the parts read
back are non-empty and hold the bytes from there to `e`. -/
theorem readBack (h : WindowServes C e w) {k : ℕ} (hk : k ≤ w.currentSize) :
    ∃ read w', w.readBack k = some (some read, w') ∧ WindowServes C (e - k) w' ∧
      EndsAt C e read ∧ totalLen read = k ∧ ∀ p ∈ read, p.data ≠ [] := by
  obtain ⟨read, w', hrb, hr⟩ := SeekWindow.readBack_spec h.wf hk
  obtain ⟨hkept, hread⟩ := h.ends.readBack h.wf hk hr
  -- the loop's result is non-empty parts
  have hloop := hrb
  simp only [SeekWindow.readBack, gt_iff_lt, Nat.not_lt.2 hk, if_false, Option.map_eq_some_iff,
    Prod.mk.injEq, Option.some.injEq] at hloop
  obtain ⟨out, hout, rfl, rfl⟩ := hloop
  obtain ⟨hback, hres⟩ := SeekWindow.readBackLoop_nonempty
    (fun p hp => h.nonempty p (List.mem_reverse.1 hp)) (fun _ hp => absurd hp List.not_mem_nil) hout
  exact ⟨_, _, hrb, ⟨hr.wf, fun p hp => hback p (List.mem_reverse.1 hp), hkept⟩, hread,
    hr.totalLen_eq, hres⟩

end WindowServes

/-! ## The part queue up to an error -/

/-- An element that fails the test, added at the end, changes no prefix the test keeps. -/
private theorem takeWhile_append_singleton_of_not {α : Type*} {p : α → Bool} (l : List α) {x : α}
    (hx : p x = false) : (l ++ [x]).takeWhile p = l.takeWhile p := by
  induction l with
  | nil => simp [hx]
  | cons a l ih => simp only [List.cons_append, List.takeWhile_cons, ih]

namespace PartQueue

variable {ε : Type} {q : PartQueue ε}

/-- The queue without what its channel holds from the first error on: what reads take before
they meet the error. -/
def beforeError (q : PartQueue ε) : PartQueue ε :=
  { q with channel := q.channel.takeWhile Except.isOk }

@[simp] theorem beforeError_failed : q.beforeError.failed = q.failed := rfl

@[simp] theorem beforeError_bytesReceived : q.beforeError.bytesReceived = q.bytesReceived := rfl

theorem beforeError_of_isOk (h : ∀ x ∈ q.channel, x.isOk) : q.beforeError = q := by
  simp [beforeError, List.takeWhile_eq_self_iff.2 h]

/-- A part pushed before any error is in the queue up to an error. -/
theorem beforeError_push_ok (h : ∀ x ∈ q.channel, x.isOk) (part : Part) :
    (q.push (.ok part)).beforeError = q.beforeError.push (.ok part) := by
  rw [beforeError_of_isOk h, beforeError_of_isOk]
  intro x hx
  rcases List.mem_append.1 hx with hx | hx
  · exact h x hx
  · rw [List.mem_singleton.1 hx]
    rfl

/-- An error pushed counts no bytes and hides nothing before it. -/
theorem beforeError_push_error (e : ε) : (q.push (.error e)).beforeError = q.beforeError := by
  simp only [beforeError, push, Nat.add_zero]
  rw [takeWhile_append_singleton_of_not _ rfl]

/-- What `next` takes from the queue up to an error, it takes from the queue. -/
theorem next_of_beforeError {x : Except ε Part} {q' : PartQueue ε}
    (h : q.beforeError.next = some (x, q')) :
    ∃ q'', q.next = some (x, q'') ∧ q''.beforeError = q' := by
  unfold next at h ⊢
  cases hf : q.frontQueue with
  | cons part rest =>
    simp only [beforeError, hf, Option.some.injEq, Prod.mk.injEq] at h
    obtain ⟨rfl, rfl⟩ := h
    exact ⟨_, rfl, rfl⟩
  | nil =>
    -- the stack is empty: the channel's first element is an ordinary part
    simp only [beforeError, hf] at h
    cases hc : q.channel with
    | nil => simp [hc] at h
    | cons y rest =>
      cases y with
      | error e => simp [hc, Except.isOk, Except.toBool] at h
      | ok part =>
        simp only [hc, List.takeWhile_cons, Except.isOk, Except.toBool, if_true,
          Option.some.injEq, Prod.mk.injEq] at h
        obtain ⟨rfl, rfl⟩ := h
        exact ⟨_, rfl, rfl⟩

/-- Where `next` finds nothing up to an error, the queue is empty or an error comes next. -/
theorem next_of_beforeError_eq_none (h : q.beforeError.next = none) :
    q.next = none ∨ ∃ e q'', q.next = some (.error e, q'') := by
  unfold next at h ⊢
  cases hf : q.frontQueue with
  | cons part rest => simp [beforeError, hf] at h
  | nil =>
    simp only [beforeError, hf] at h
    cases hc : q.channel with
    | nil => exact .inl rfl
    | cons y rest =>
      cases y with
      | error e => exact .inr ⟨e, _, rfl⟩
      | ok part => simp [hc, List.takeWhile_cons, Except.isOk, Except.toBool] at h

/-- A read of an ordinary part from the queue up to an error is a read from the queue. -/
theorem read_of_beforeError {length : ℕ} {part : Part} {q' : PartQueue ε}
    (h : q.beforeError.read length = some (.ok part, q')) :
    ∃ q'', q.read length = some (.ok part, q'') ∧ q''.beforeError = q' := by
  unfold read at h ⊢
  rw [beforeError_failed] at h
  split at h
  · cases h
  rename_i hfailed
  rw [if_neg hfailed]
  obtain ⟨⟨x, q₁⟩, hnext, hres⟩ := Option.map_eq_some_iff.1 h
  obtain ⟨q₂, hnext₂, rfl⟩ := next_of_beforeError hnext
  rw [hnext₂, Option.map_some]
  cases x with
  | error e => cases hres
  | ok p =>
    simp only at hres ⊢
    split at hres
    · rename_i hlt
      cases hres
      exact ⟨_, by rw [if_pos hlt], rfl⟩
    · rename_i hlt
      cases hres
      exact ⟨_, by rw [if_neg hlt], rfl⟩

/-- A read that finds nothing up to an error waits, or returns the error. -/
theorem read_of_beforeError_eq_none (hfailed : q.failed = false) {length : ℕ}
    (h : q.beforeError.read length = none) :
    q.read length = none ∨ ∃ e q'', q.read length = some (.error e, q'') := by
  unfold read at h ⊢
  rw [beforeError_failed, hfailed] at h
  rw [hfailed]
  simp only [Bool.false_eq_true, if_false, Option.map_eq_none_iff] at h ⊢
  rcases next_of_beforeError_eq_none h with hnone | ⟨e, q₂, hnext⟩
  · exact .inl hnone
  · rw [hnext]
    exact .inr ⟨e, _, rfl⟩

theorem pushFront_beforeError (part : Part) :
    q.beforeError.pushFront part = (q.pushFront part).map beforeError := by
  by_cases hfailed : q.failed = true
  · simp only [pushFront, beforeError_failed, hfailed, if_true, Option.map_none]
  · simp only [pushFront, beforeError_failed, hfailed]
    rfl

theorem foldlM_pushFront_beforeError (parts : List Part) :
    parts.foldlM pushFront q.beforeError = (parts.foldlM pushFront q).map beforeError := by
  induction parts generalizing q with
  | nil => rfl
  | cons part parts ih =>
    rw [List.foldlM_cons, List.foldlM_cons, pushFront_beforeError]
    cases q.pushFront part with
    | none => rfl
    | some q₁ => exact ih

end PartQueue

/-! ## The request in flight -/

/-- The request in flight for a reader at `nextSeq` of the object `C`: its count of remaining
bytes is what the object has from the reader on, and its queue, up to an error, holds the
object's bytes from the reader on, the reader having made some moves from the request's start. -/
structure TaskServes {ε : Type} (C : List UInt8) (nextSeq : ℕ) (task : RequestTask ε) : Prop where
  remaining_eq : task.remaining = C.length - nextSeq
  holds : ∃ moves, Move.position task.range.start moves = nextSeq ∧
    Reader.Holds C task.range.start
      ⟨task.partQueue.beforeError, moves, Move.log C task.range.start moves⟩

namespace TaskServes

variable {ε : Type} {C : List UInt8} {nextSeq : ℕ} {task : RequestTask ε}

/-- The request `spawn_read_backpressure_request` makes, from the reader to the object's end. -/
theorem fromHandle (C : List UInt8) (nextSeq : ℕ) :
    TaskServes C nextSeq (RequestTask.fromHandle (ε := ε) (RequestRange.new C.length nextSeq C.length)) :=
  ⟨by simp [RequestTask.fromHandle, RequestRange.new], [], rfl, Reader.holds_init⟩

theorem failed_eq (h : TaskServes C nextSeq task) : task.partQueue.failed = false := by
  obtain ⟨_, -, hh⟩ := h.holds
  exact hh.sound.failed_eq

/-- **A read** from a queue with bytes before the reader's next error returns at least one byte
and at most `length`, where the reader is, and the object's bytes there. -/
theorem read (h : TaskServes C nextSeq task) {length : ℕ} (hlen : 0 < length)
    (hbytes : nextSeq < task.availableOffset) :
    ∃ part task', task.read length = some (.ok part, task') ∧ part.offset = nextSeq ∧
      0 < part.len ∧ part.len ≤ length ∧ part.data = (C.drop nextSeq).take part.len ∧
      TaskServes C (nextSeq + part.len) task' := by
  obtain ⟨moves, hpos, hh⟩ := h.holds
  obtain ⟨part, q', hread, hoff, hk, hkl, hdata, hq', -⟩ :=
    hh.read (r := ⟨_, moves, _⟩) hlen
      (by simpa [Reader.position, hpos, RequestTask.availableOffset] using hbytes)
  obtain ⟨q'', hread', hbefore⟩ := PartQueue.read_of_beforeError hread
  simp only [Reader.position, hpos] at hoff hdata
  refine ⟨part, { task with partQueue := q'', remaining := task.remaining - part.len },
    by simp [RequestTask.read, hread'], hoff, hk, hkl, hdata,
    ⟨?_, moves ++ [.read part.len], by simp [hpos], ?_⟩⟩
  · show task.remaining - part.len = C.length - (nextSeq + part.len)
    rw [h.remaining_eq]
    omega
  -- what the reads have returned is what a reader making the same moves sees
  have hlog := hq'.delivered_eq
  rw [hbefore]
  rw [← hlog]
  exact hq'

/-- With no bytes before the reader's next error, a read waits, or returns the error. -/
theorem read_of_le (h : TaskServes C nextSeq task) (hbytes : task.availableOffset ≤ nextSeq)
    (length : ℕ) : task.read length = none ∨ ∃ e task', task.read length = some (.error e, task') := by
  obtain ⟨moves, hpos, hh⟩ := h.holds
  have hle := hh.position_le
  simp only [Reader.position, hpos, PartQueue.beforeError_bytesReceived] at hle
  simp only [RequestTask.availableOffset] at hbytes
  have hend : Reader.position task.range.start
      ⟨task.partQueue.beforeError, moves, Move.log C task.range.start moves⟩ =
      task.range.start + task.partQueue.beforeError.bytesReceived := by
    simp only [Reader.position, hpos, PartQueue.beforeError_bytesReceived]
    exact Nat.le_antisymm hle hbytes
  have hnone := hh.read_eq_none hend length
  rcases PartQueue.read_of_beforeError_eq_none h.failed_eq hnone with hwait | ⟨e, q'', herr⟩
  · exact .inl (by simp [RequestTask.read, hwait])
  · exact .inr ⟨e, { task with partQueue := q'' }, by simp [RequestTask.read, herr]⟩

/-- A push of the object's next bytes by the producer, before any error. -/
theorem push (h : TaskServes C nextSeq task) {part : Part}
    (hok : ∀ x ∈ task.partQueue.channel, x.isOk) (hne : part.data ≠ [])
    (hoff : part.offset = task.availableOffset) (hdata : part.data = (C.drop part.offset).take part.len) :
    TaskServes C nextSeq { task with partQueue := task.partQueue.push (.ok part) } := by
  obtain ⟨moves, hpos, hh⟩ := h.holds
  refine ⟨h.remaining_eq, moves, hpos, ?_⟩
  simp only [PartQueue.beforeError_push_ok hok]
  exact hh.push ⟨hne, hoff, hdata⟩

theorem push_error (h : TaskServes C nextSeq task) (e : PrefetchReadError ε) :
    TaskServes C nextSeq { task with partQueue := task.partQueue.push (.error e) } := by
  obtain ⟨moves, hpos, hh⟩ := h.holds
  refine ⟨h.remaining_eq, moves, hpos, ?_⟩
  simp only [PartQueue.beforeError_push_error]
  exact hh

/-- Parts put back in front that hold the object's bytes up to the reader: the reader steps back
over them, and they count again in the remaining bytes. -/
theorem pushFront (h : TaskServes C nextSeq task) (hle : nextSeq ≤ C.length) {parts : List Part}
    (hends : EndsAt C nextSeq parts) (hne : ∀ p ∈ parts, p.data ≠ []) :
    ∃ q, RequestTask.pushFront task.partQueue parts = some q ∧
      TaskServes C (nextSeq - totalLen parts)
        { task with partQueue := q, remaining := task.remaining + totalLen parts } := by
  obtain ⟨moves, hpos, hh⟩ := h.holds
  obtain ⟨q', hpush, hq'⟩ := hh.pushFront (r := ⟨_, moves, _⟩)
    ⟨by simp [Reader.position, hpos, hends.le], hne, by simpa [Reader.position, hpos] using
      hends.contiguous, by simpa [Reader.position, hpos] using hends.bytes_eq⟩
  have hfold : (parts.reverse.foldlM PartQueue.pushFront task.partQueue).map
      PartQueue.beforeError = some q' := by
    rw [← PartQueue.foldlM_pushFront_beforeError]
    exact hpush
  obtain ⟨q, hq, rfl⟩ := Option.map_eq_some_iff.1 hfold
  have hlen := hends.le
  refine ⟨q, hq, ⟨by simp [h.remaining_eq]; omega, moves ++ [.rewind (totalLen parts)],
    by simp [hpos], ?_⟩⟩
  simpa using hq'

end TaskServes

/-! ## The prefetcher and the call on it -/

/-- What holds of a prefetcher of the object `C` between steps. The seek window ends where the
next sequential read starts (the offset of its last byte is `next_sequential_read_offset - 1`)
and is empty when no request is in flight, and the request in flight serves a reader there. -/
structure PrefetcherServes {ε : Type} (C : List UInt8) (p : PrefetchGetObject ε) : Prop where
  size_eq : p.size = C.length
  nextSeq_le : p.nextSequentialReadOffset ≤ C.length
  window : WindowServes C p.nextSequentialReadOffset p.backwardSeekWindow
  window_empty : p.backpressureTask = none → p.backwardSeekWindow.parts = []
  task : ∀ task, p.backpressureTask = some task → TaskServes C p.nextSequentialReadOffset task
  preferredPartSize_ge : 128 * 1024 ≤ p.preferredPartSize
  preferredPartSize_le : p.preferredPartSize ≤ 1024 * 1024

/-- Where the call on a prefetcher of the object `C` is, with a request in flight or not and the
next sequential read at `nextSeq`: a call in progress has a request in flight and has read the
object's bytes from its offset to `nextSeq`, and a call that returned `Ok` returned the object's
bytes from its offset, as many as asked, up to the object's end. -/
def CallServes {ε : Type} (C : List UInt8) (inFlight : Bool) (nextSeq : ℕ) : ReadCall ε → Prop
  | .idle => True
  | .seeking offset length toRead seekDistance =>
    inFlight ∧ nextSeq + seekDistance = offset ∧ 0 < seekDistance ∧ offset < C.length ∧
      toRead = min length (C.length - offset)
  | .reading offset length toRead response =>
    inFlight ∧ offset ≤ nextSeq ∧ 0 < toRead ∧ nextSeq + toRead = offset + min length (C.length - offset) ∧
      response = (C.drop offset).take (nextSeq - offset)
  | .returned offset length result => ∀ data, result = .ok data → data = (C.drop offset).take length

/-- The bytes from `offset`, as many as asked, up to the object's end. -/
private theorem take_min_sub (C : List UInt8) (offset length : ℕ) :
    (C.drop offset).take (min length (C.length - offset)) = (C.drop offset).take length := by
  rw [← List.length_drop]
  simp

theorem Part.intoBytes_of_offset {p : Part} {offset : ℕ} (h : p.offset = offset) :
    p.intoBytes offset = .ok p.data := by
  simp [Part.intoBytes, h]

namespace PrefetcherServes

variable {ε : Type} {C : List UInt8} {p : PrefetchGetObject ε}

theorem new {client : PartStreamClient} {config : PrefetcherConfig}
    (h : PrefetchGetObject.new client config C.length = some p) : PrefetcherServes C p := by
  obtain ⟨w, hw, rfl⟩ := Option.map_eq_some_iff.1 h
  simp only [SeekWindow.new] at hw
  split at hw
  · rename_i hmax
    cases hw
    exact ⟨rfl, Nat.zero_le _, ⟨⟨hmax, rfl, Nat.zero_le _, 0, trivial⟩, by simp, EndsAt.nil C 0⟩,
      fun _ => rfl, fun _ ht => (by cases ht), le_rfl, by norm_num⟩
  · cases hw

theorem resetPrefetchToOffset (h : PrefetcherServes C p) {offset : ℕ} (hoff : offset ≤ C.length) :
    PrefetcherServes C (p.resetPrefetchToOffset offset) :=
  ⟨h.size_eq, hoff, WindowServes.clear h.window.wf C offset, fun _ => rfl,
    fun _ ht => (by cases ht), h.preferredPartSize_ge, h.preferredPartSize_le⟩

/-- An error resets the prefetcher to the offset read, and the call returns it. -/
theorem fail (h : PrefetcherServes C p) {offset : ℕ} (hoff : offset ≤ C.length) (length : ℕ)
    (e : PrefetchReadError ε) :
    PrefetcherServes C (p.fail offset length e).1 ∧
      CallServes C (p.fail offset length e).1.backpressureTask.isSome
        (p.fail offset length e).1.nextSequentialReadOffset (p.fail offset length e).2 :=
  ⟨h.resetPrefetchToOffset hoff, fun _ hd => by cases hd⟩

/-- The config of the request `spawn_read_backpressure_request` spawns. -/
theorem spawnReadBackpressureRequest_eq_ok {config : RequestTaskConfig}
    (h : p.spawnReadBackpressureRequest = .ok config) :
    config = ⟨RequestRange.new p.size p.nextSequentialReadOffset p.size, p.client.readPartSize,
      p.preferredPartSize, p.config.initialRequestSize, p.config.maxReadWindowSize,
      p.config.sequentialPrefetchMultiplier⟩ := by
  unfold PrefetchGetObject.spawnReadBackpressureRequest at h
  split at h
  · split at h
    · cases h
    · cases h
      rfl
  · cases h

theorem spawnReadBackpressureRequest_range {config : RequestTaskConfig}
    (h : p.spawnReadBackpressureRequest = .ok config) :
    config.range = RequestRange.new p.size p.nextSequentialReadOffset p.size := by
  rw [spawnReadBackpressureRequest_eq_ok h]

end PrefetcherServes

/-- The test of the loop of `try_read`, for a call that has read the object's bytes from its
offset to the next sequential read. -/
theorem callServes_loop {ε : Type} {C : List UInt8} {nextSeq offset length toRead : ℕ}
    {response : List UInt8} (hoff : offset ≤ nextSeq)
    (hend : nextSeq + toRead = offset + min length (C.length - offset))
    (hresp : response = (C.drop offset).take (nextSeq - offset)) :
    CallServes C true nextSeq (ReadCall.loop (ε := ε) offset length toRead response) := by
  unfold ReadCall.loop
  split
  · rename_i hpos
    exact ⟨rfl, hoff, hpos, hend, hresp⟩
  · -- nothing is left to read: the response is the whole read
    rename_i hzero
    intro data hdata
    cases hdata
    rw [hresp, show nextSeq - offset = min length (C.length - offset) by omega, take_min_sub]

namespace PrefetcherServes

variable {ε : Type} {C : List UInt8} {p : PrefetchGetObject ε}

/-- `try_read` from its assertion on, at the offset read: the assertion holds, and the loop
starts on the request in flight or on a new one. -/
theorem readFrom (h : PrefetcherServes C p) {offset length toRead : ℕ}
    (hoff : p.nextSequentialReadOffset = offset) (hlt : offset < C.length)
    (htoRead : toRead = min length (C.length - offset)) :
    ∃ p' c, p.readFrom offset length toRead = some (p', c) ∧ PrefetcherServes C p' ∧
      CallServes C p'.backpressureTask.isSome p'.nextSequentialReadOffset c := by
  have hloop : CallServes C true p.nextSequentialReadOffset
      (ReadCall.loop (ε := ε) offset length toRead []) :=
    callServes_loop (by omega) (by omega) (by simp [hoff])
  unfold PrefetchGetObject.readFrom
  rw [if_neg (not_not.2 hoff)]
  cases htask : p.backpressureTask with
  | some task => exact ⟨p, _, rfl, h, by simpa [htask] using hloop⟩
  | none =>
    cases hspawn : p.spawnReadBackpressureRequest with
    | error e => exact ⟨_, _, rfl, h.fail hlt.le length e⟩
    | ok config =>
      -- the new request runs from the offset read to the object's end
      have hrange := spawnReadBackpressureRequest_range hspawn
      refine ⟨_, _, rfl, ⟨h.size_eq, h.nextSeq_le, h.window, fun hn => (by cases hn),
        fun task ht => ?_, h.preferredPartSize_ge, h.preferredPartSize_le⟩, hloop⟩
      cases ht
      rw [hrange, h.size_eq]
      exact TaskServes.fromHandle C _

theorem seekForwardServed_isSome {offset readWindowEndOffset : ℕ}
    (h : p.seekForwardServed offset readWindowEndOffset = true) : p.backpressureTask.isSome := by
  unfold PrefetchGetObject.seekForwardServed at h
  cases htask : p.backpressureTask with
  | none => simp [htask] at h
  | some => rfl

/-- `try_seek_backward` to an offset before the next sequential read: when it succeeds, the
reader is at the offset, the window holds the bytes before it, and the queue those after. -/
theorem trySeekBackward (h : PrefetcherServes C p) {offset : ℕ}
    (hlt : offset < p.nextSequentialReadOffset) :
    ∃ sought p', p.trySeekBackward offset = some (sought, p') ∧ PrefetcherServes C p' ∧
      (sought = true → p'.nextSequentialReadOffset = offset) := by
  unfold PrefetchGetObject.trySeekBackward
  cases htask : p.backpressureTask with
  | none => exact ⟨false, p, rfl, h, fun h => by cases h⟩
  | some task =>
    rcases Nat.lt_or_ge p.backwardSeekWindow.currentSize (p.nextSequentialReadOffset - offset)
      with hbig | hk
    · -- the window does not reach back to the offset: the seek fails and nothing changes
      refine ⟨false, p, ?_, h, fun h => by cases h⟩
      simp only [SeekWindow.readBack_of_lt hbig, Option.bind_some]
      rw [← htask]
    · obtain ⟨read, w', hrb, hw', hread, hlen, hne⟩ := h.window.readBack hk
      obtain ⟨q, hq, ht'⟩ := (h.task task htask).pushFront h.nextSeq_le hread hne
      have hback : p.nextSequentialReadOffset - (p.nextSequentialReadOffset - offset) = offset := by
        omega
      rw [hlen, hback] at ht'
      rw [hback] at hw'
      simp only [hrb, Option.bind_some, hq, Option.map_some, hlen]
      refine ⟨_, _, rfl, ⟨h.size_eq, (Nat.lt_of_lt_of_le hlt h.nextSeq_le).le, hw', fun hn => (by cases hn),
        fun task' ht => ?_, h.preferredPartSize_ge, h.preferredPartSize_le⟩, fun _ => rfl⟩
      cases ht
      exact ht'

end PrefetcherServes

namespace PrefetcherServes

variable {ε : Type} {C : List UInt8} {p : PrefetchGetObject ε}

/-- **A call of `read` starts**: it returns at once past the object's end, skips forward, puts
the window back in front of the queue, or resets, and none of these panics. -/
theorem read (h : PrefetcherServes C p) (offset length readWindowEndOffset : ℕ) :
    ∃ p' c, p.read offset length readWindowEndOffset = some (p', c) ∧ PrefetcherServes C p' ∧
      CallServes C p'.backpressureTask.isSome p'.nextSequentialReadOffset c := by
  -- the preferred part size stays between the readahead size and a MiB
  have h₁ : PrefetcherServes C
      { p with preferredPartSize := min (max p.preferredPartSize length) (1024 * 1024) } :=
    ⟨h.size_eq, h.nextSeq_le, h.window, h.window_empty, h.task,
      le_min (le_trans h.preferredPartSize_ge (le_max_left _ _)) (by norm_num), min_le_right _ _⟩
  unfold PrefetchGetObject.read
  dsimp only
  have hsize := h.size_eq
  split_ifs with hend hne hgt hserved
  · -- past the object's end nothing is read
    refine ⟨_, _, rfl, h₁, fun data hdata => ?_⟩
    cases hdata
    rw [List.drop_eq_nil_of_le (by omega), List.take_nil]
  · -- a seek forward within the window waits for the bytes up to the offset
    refine ⟨_, _, rfl, h₁, seekForwardServed_isSome hserved, ?_, ?_, ?_, ?_⟩ <;>
      (try dsimp only) <;> omega
  · exact (h₁.resetPrefetchToOffset (by omega)).readFrom rfl (by omega) (by rw [hsize])
  · obtain ⟨sought, p', htry, hp', hsought⟩ :=
      h₁.trySeekBackward (show offset < p.nextSequentialReadOffset by omega)
    rw [htry, Option.bind_some]
    dsimp only
    split
    · rename_i hs
      exact hp'.readFrom (hsought hs) (by omega) (by rw [hsize])
    · exact (hp'.resetPrefetchToOffset (by omega)).readFrom rfl (by omega) (by rw [hsize])
  · exact h₁.readFrom (not_not.1 hne) (by omega) (by rw [hsize])

/-- A push of the object's next bytes by the producer of the request in flight. -/
theorem push_ok (h : PrefetcherServes C p) {part : Part}
    (hfit : ∀ task, p.backpressureTask = some task → (∀ x ∈ task.partQueue.channel, x.isOk) ∧
      part.data ≠ [] ∧ part.offset = task.availableOffset ∧
      part.data = (C.drop part.offset).take part.len) :
    PrefetcherServes C (p.push (.ok part)) := by
  unfold PrefetchGetObject.push
  cases htask : p.backpressureTask with
  | none => exact h
  | some task =>
    obtain ⟨hok, hne, hoff, hdata⟩ := hfit task htask
    refine ⟨h.size_eq, h.nextSeq_le, h.window, fun hn => (by cases hn), fun t ht => ?_,
      h.preferredPartSize_ge, h.preferredPartSize_le⟩
    cases ht
    exact (h.task task htask).push hok hne hoff hdata

theorem push_error (h : PrefetcherServes C p) (e : PrefetchReadError ε) :
    PrefetcherServes C (p.push (.error e)) := by
  unfold PrefetchGetObject.push
  cases htask : p.backpressureTask with
  | none => exact h
  | some task =>
    refine ⟨h.size_eq, h.nextSeq_le, h.window, fun hn => (by cases hn), fun t ht => ?_,
      h.preferredPartSize_ge, h.preferredPartSize_le⟩
    cases ht
    exact (h.task task htask).push_error e

end PrefetcherServes

namespace PrefetchGetObject

variable {ε : Type} {p : PrefetchGetObject ε}

@[simp] theorem push_nextSequentialReadOffset (part : Except (PrefetchReadError ε) Part) :
    (p.push part).nextSequentialReadOffset = p.nextSequentialReadOffset := by
  unfold push
  split <;> rfl

@[simp] theorem push_backpressureTask_isSome (part : Except (PrefetchReadError ε) Part) :
    (p.push part).backpressureTask.isSome = p.backpressureTask.isSome := by
  unfold push
  split <;> simp_all

end PrefetchGetObject

namespace PrefetcherServes

variable {ε : Type} {C : List UInt8} {p : PrefetchGetObject ε}

/-- The prefetcher after the call took a part at the next sequential read from the request: the
reader moves past the part, which goes to the window. -/
theorem took (h : PrefetcherServes C p) {task' : RequestTask ε} {part : Part}
    {w' : SeekWindow} (ht' : TaskServes C (p.nextSequentialReadOffset + part.len) task')
    (hw' : WindowServes C (p.nextSequentialReadOffset + part.len) w')
    (hle : p.nextSequentialReadOffset + part.len ≤ C.length) :
    PrefetcherServes C { p with
      backpressureTask := some task'
      backwardSeekWindow := w'
      nextSequentialReadOffset := p.nextSequentialReadOffset + part.len } :=
  ⟨h.size_eq, hle, hw', fun hn => (by cases hn), fun t ht => (by cases ht; exact ht'),
    h.preferredPartSize_ge, h.preferredPartSize_le⟩

/-- **A step of `try_seek_forward`'s loop**: a part in the queue moves the reader toward the
offset, and the last one starts the read there; with the queue empty the call waits, and an error
resets. -/
theorem readPart_seeking (h : PrefetcherServes C p) {offset length toRead seekDistance : ℕ}
    (hc : CallServes C p.backpressureTask.isSome p.nextSequentialReadOffset
      (.seeking (ε := ε) offset length toRead seekDistance)) :
    ∃ p' c, p.readPart (.seeking offset length toRead seekDistance) = some (p', c) ∧
      PrefetcherServes C p' ∧ CallServes C p'.backpressureTask.isSome p'.nextSequentialReadOffset c := by
  obtain ⟨hsome, hd, hpos, hlt, htoRead⟩ := hc
  obtain ⟨task, htask⟩ := Option.isSome_iff_exists.1 hsome
  have ht := h.task task htask
  simp only [PrefetchGetObject.readPart, htask, ht.failed_eq, Bool.false_eq_true, if_false]
  rcases Nat.lt_or_ge p.nextSequentialReadOffset task.availableOffset with hbytes | hbytes
  · obtain ⟨part, task', hread, hoff, hk, hkl, hdata, ht'⟩ := ht.read hpos hbytes
    obtain ⟨w', hpush, hw'⟩ := h.window.push (List.ne_nil_of_length_pos hk) hoff hdata
    have hp' := h.took ht' hw' (by omega)
    simp only [hread, hpush, Option.bind_some]
    split
    · rename_i hmore
      exact ⟨_, _, rfl, hp', rfl, by dsimp only; omega, hmore, hlt, htoRead⟩
    · -- the offset is reached: the read starts there
      exact hp'.readFrom (by dsimp only; omega) hlt htoRead
  · rcases ht.read_of_le hbytes seekDistance with hwait | ⟨e, task', herr⟩
    · simp only [hwait]
      exact ⟨_, _, rfl, h, hsome, hd, hpos, hlt, htoRead⟩
    · simp only [herr]
      exact ⟨_, _, rfl, h.fail hlt.le length e⟩

/-- **A step of `try_read`'s loop**: a part in the queue is where the reader is, passes the offset
check, and extends the response with the object's next bytes; the call returns once it has them
all. With the queue empty the call waits, and an error resets. -/
theorem readPart_reading (h : PrefetcherServes C p) {offset length toRead : ℕ}
    {response : List UInt8}
    (hc : CallServes C p.backpressureTask.isSome p.nextSequentialReadOffset
      (.reading (ε := ε) offset length toRead response)) :
    ∃ p' c, p.readPart (.reading offset length toRead response) = some (p', c) ∧
      PrefetcherServes C p' ∧ CallServes C p'.backpressureTask.isSome p'.nextSequentialReadOffset c := by
  obtain ⟨hsome, hoff, htoRead, hend, hresp⟩ := hc
  obtain ⟨task, htask⟩ := Option.isSome_iff_exists.1 hsome
  have ht := h.task task htask
  have hlt : offset < C.length := by omega
  simp only [PrefetchGetObject.readPart, htask, ht.failed_eq, Bool.false_eq_true, if_false]
  rcases Nat.lt_or_ge p.nextSequentialReadOffset task.availableOffset with hbytes | hbytes
  · obtain ⟨part, task', hread, hpoff, hk, hkl, hdata, ht'⟩ := ht.read htoRead hbytes
    obtain ⟨w', hpush, hw'⟩ := h.window.push (List.ne_nil_of_length_pos hk) hpoff hdata
    have hp' := h.took ht' hw' (by omega)
    simp only [hread, hpush, Option.bind_some, Part.intoBytes_of_offset hpoff]
    -- the response so far and the part are the object's bytes from the offset on
    have hjoin : response ++ part.data =
        (C.drop offset).take (p.nextSequentialReadOffset + part.len - offset) := by
      have h2 := take_drop_append_take_drop C offset (p.nextSequentialReadOffset - offset) part.len
      rw [Nat.add_sub_cancel' hoff] at h2
      rw [hresp, hdata, h2]
      congr 1
      omega
    split
    · -- one part holds the whole read
      rename_i hwhole
      obtain ⟨hempty, hlen⟩ := hwhole
      have hnext : p.nextSequentialReadOffset = offset := by
        have hl := congrArg List.length hresp
        rw [List.isEmpty_iff.1 hempty] at hl
        simp only [List.length_nil, List.length_take, List.length_drop] at hl
        omega
      refine ⟨_, _, rfl, hp', fun data hd => ?_⟩
      cases hd
      rw [hdata, hnext, show part.len = min length (C.length - offset) by simp only [Part.len]; omega,
        take_min_sub]
    · refine ⟨_, _, rfl, hp', ?_⟩
      have hlen : part.data.length = part.len := rfl
      exact callServes_loop (by dsimp only; omega) (by dsimp only; omega) hjoin
  · rcases ht.read_of_le hbytes toRead with hwait | ⟨e, task', herr⟩
    · simp only [hwait]
      exact ⟨_, _, rfl, h, hsome, hoff, htoRead, hend, hresp⟩
    · simp only [herr]
      exact ⟨_, _, rfl, h.fail hlt.le length e⟩

end PrefetcherServes

/-! ## Runs -/

/-- What holds of a prefetcher of the object `C` and the call on it between steps. -/
structure Serves {ε : Type} (C : List UInt8) (r : PrefetchRun ε) : Prop where
  prefetcher : PrefetcherServes C r.prefetcher
  call : CallServes C r.prefetcher.backpressureTask.isSome r.prefetcher.nextSequentialReadOffset r.call

namespace Serves

variable {ε : Type} {C : List UInt8} {r : PrefetchRun ε}

theorem new {client : PartStreamClient} {config : PrefetcherConfig}
    (hmax : 0 < config.maxBackwardSeekDistance) :
    ∃ r, PrefetchRun.new (ε := ε) client config C.length = some r ∧ Serves C r := by
  have hnew : (PrefetchGetObject.new (ε := ε) client config C.length).isSome := by
    simp [PrefetchGetObject.new, SeekWindow.new, hmax]
  obtain ⟨p, hp⟩ := Option.isSome_iff_exists.1 hnew
  exact ⟨⟨p, .idle⟩, by simp [PrefetchRun.new, hp], PrefetcherServes.new hp, trivial⟩

/-- The call in progress takes a part, waits, or, when none is in progress, nothing happens. -/
theorem readPart (h : Serves C r) :
    ∃ p' c, r.prefetcher.readPart r.call = some (p', c) ∧ PrefetcherServes C p' ∧
      CallServes C p'.backpressureTask.isSome p'.nextSequentialReadOffset c := by
  obtain ⟨hp, hc⟩ := h
  cases hcall : r.call with
  | seeking offset length toRead seekDistance =>
    rw [hcall] at hc
    exact hp.readPart_seeking hc
  | reading offset length toRead response =>
    rw [hcall] at hc
    exact hp.readPart_reading hc
  | idle => exact ⟨_, _, rfl, hp, trivial⟩
  | returned offset length result =>
    rw [hcall] at hc
    exact ⟨_, _, rfl, hp, hc⟩

/-- **One step** keeps the prefetcher and the call serving the object, and does not panic. -/
theorem step (h : Serves C r) {e : PrefetchEvent ε} (hfit : PrefetchRun.Produces C (some r) e) :
    ∃ r', PrefetchRun.step (some r) e = some r' ∧ Serves C r' := by
  cases e with
  | read offset length readWindowEndOffset =>
    by_cases hprog : r.call.inProgress = true
    · exact ⟨r, by simp [PrefetchRun.step, hprog], h⟩
    · obtain ⟨p', c, hread, hp', hc'⟩ := h.prefetcher.read offset length readWindowEndOffset
      exact ⟨⟨p', c⟩, by simp [PrefetchRun.step, hprog, hread], hp', hc'⟩
  | readPart =>
    obtain ⟨p', c, hpart, hp', hc'⟩ := h.readPart
    exact ⟨⟨p', c⟩, by simp [PrefetchRun.step, hpart], hp', hc'⟩
  | push part =>
    refine ⟨_, rfl, ?_, ?_⟩
    · cases part with
      | ok part =>
        -- the producer's part is the object's next bytes, before any error
        refine h.prefetcher.push_ok fun task htask => ?_
        simpa [PrefetchRun.Produces, htask] using hfit
      | error e => exact h.prefetcher.push_error e
    · simpa using h.call

/-- **Along every run** in which the producer pushes the object's bytes in order and nothing
after an error, no step panics and the prefetcher and the call serve the object. -/
theorem run (h : Serves C r) (events : List (PrefetchEvent ε))
    (hevents : Allowed PrefetchRun.step (PrefetchRun.Produces C) (some r) events) :
    ∃ r', Foundations.run PrefetchRun.step (some r) events = some r' ∧ Serves C r' :=
  run_invariant_of_allowed (P := fun s => ∃ r', s = some r' ∧ Serves C r')
    (fun _ _ ⟨r₀, hs, h₀⟩ hfit => by
      subst hs
      exact h₀.step hfit)
    events ⟨r, rfl, h⟩ hevents

end Serves

end MountpointS3.Prefetch
