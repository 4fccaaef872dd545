import Mathlib.Data.List.Induction
import MountpointS3.Foundations.Run
import MountpointS3.Foundations.Slice
import MountpointS3.Prefetch.Part

/-!
# The part queue

`prefetch/part_queue.rs`: the queue between a request's task, which pushes the parts of the
response into a channel (`PartQueueProducer::push`), and the reader, which reads up to a length
at a time (`PartQueue::read`). A read takes the part on top of the front stack, or else the next
part of the channel, and puts the tail of a part it splits back on top of the stack; a backward
seek puts parts back on the stack, last part first (`RequestTask::push_front`).

The reader's side is a cursor over the object (`Move`): it reads on from its position and steps
back over the bytes put back in front. `Move.log` is what such a reader sees.

* `Reader.Holds`: the parts in the queue, stack then channel, are non-empty and hold the
  object's bytes from the reader's position to the producer's end, and the reads so far returned
  `Move.log` of the reader's moves;
* `read_spec`, `read_eq_none`: a read returns the first bytes of the first part and leaves the
  rest on top, and waits only when the queue is empty;
* `Holds.read`, `Holds.push`, `Holds.pushFront`: each operation keeps `Holds`, a read returning
  between one and the asked number of bytes, where the reader is;
* `holds_run`: `Holds` along every run whose pushes carry the object's bytes one part after
  another and whose parts put back are the bytes just before the reader.

A part put back in front that is empty is returned as it is by the next read.
-/

namespace MountpointS3.Prefetch

open Foundations

/-! ## The reader's view -/

/-- A move of a reader of an object: a read of `k` bytes, or a step back over `t` bytes. -/
inductive Move
  | read (k : ℕ)
  | rewind (t : ℕ)
  deriving DecidableEq, Repr

namespace Move

/-- Where the reader is after the moves, from `start`. -/
def position : ℕ → List Move → ℕ
  | pos, [] => pos
  | pos, .read k :: ms => position (pos + k) ms
  | pos, .rewind t :: ms => position (pos - t) ms

/-- The bytes of `C` the reads return, one after the other: the object from `start` on, with
every stretch stepped back over read again. -/
def log {α : Type*} (C : List α) : ℕ → List Move → List α
  | _, [] => []
  | pos, .read k :: ms => (C.drop pos).take k ++ log C (pos + k) ms
  | pos, .rewind t :: ms => log C (pos - t) ms

variable {α : Type*} (C : List α) (pos : ℕ) (ms : List Move)

@[simp] theorem position_append_read (k : ℕ) :
    position pos (ms ++ [.read k]) = position pos ms + k := by
  induction ms generalizing pos with
  | nil => rfl
  | cons m ms ih => cases m <;> exact ih _

@[simp] theorem position_append_rewind (t : ℕ) :
    position pos (ms ++ [.rewind t]) = position pos ms - t := by
  induction ms generalizing pos with
  | nil => rfl
  | cons m ms ih => cases m <;> exact ih _

@[simp] theorem log_append_read (k : ℕ) :
    log C pos (ms ++ [.read k]) = log C pos ms ++ (C.drop (position pos ms)).take k := by
  induction ms generalizing pos with
  | nil => simp [log, position]
  | cons m ms ih => cases m <;> simp [log, position, ih]

@[simp] theorem log_append_rewind (t : ℕ) : log C pos (ms ++ [.rewind t]) = log C pos ms := by
  induction ms generalizing pos with
  | nil => simp [log]
  | cons m ms ih => cases m <;> simp [log, ih]

end Move

/-! ## The queue -/

/-- `PartQueue`, with the counter of the bytes sent that it shares with its producer.
`front_queue` is a stack, a `Vec` pushed and popped at its end, here with its top first; the
channel holds what was sent and not yet received, first in first out. -/
structure PartQueue (ε : Type) where
  frontQueue : List Part
  channel : List (Except ε Part)
  failed : Bool
  bytesReceived : ℕ

namespace PartQueue

variable {ε : Type}

/-- `unbounded_part_queue`. -/
def new : PartQueue ε := ⟨[], [], false, 0⟩

/-- The part `read` takes: the top of the stack, else the first of the channel; `none` when both
are empty, where `read` waits on the channel. -/
def next (q : PartQueue ε) : Option (Except ε Part × PartQueue ε) :=
  match q.frontQueue with
  | part :: rest => some (.ok part, { q with frontQueue := rest })
  | [] =>
    match q.channel with
    | part :: rest => some (part, { q with channel := rest })
    | [] => none

/-- `PartQueue::read`; `none` where it does not return: on a failed queue, where its `assert!`
panics, and on an empty one, where it waits for the producer. -/
def read (q : PartQueue ε) (length : ℕ) : Option (Except ε Part × PartQueue ε) :=
  if q.failed then none
  else q.next.map fun (part, q) =>
    match part with
    | .error e => (.error e, { q with failed := true })
    | .ok part =>
      -- a partial read puts the tail back on top of the stack
      if length < part.len then
        (.ok (part.splitOff length).1,
          { q with frontQueue := (part.splitOff length).2 :: q.frontQueue })
      else (.ok part, q)

/-- `PartQueue::push_front`; `none` where its `assert!` panics. -/
def pushFront (q : PartQueue ε) (part : Part) : Option (PartQueue ε) :=
  if q.failed then none else some { q with frontQueue := part :: q.frontQueue }

/-- `PartQueueProducer::push`: the channel is unbounded, and open while the queue lives. -/
def push (q : PartQueue ε) (part : Except ε Part) : PartQueue ε :=
  let partLen := match part with
    | .ok part => part.len
    | .error _ => 0
  { q with channel := q.channel ++ [part], bytesReceived := q.bytesReceived + partLen }

/-- The parts in the queue in the order reads take them: the stack from its top, then the parts
of the channel. -/
def content (q : PartQueue ε) : List Part :=
  q.frontQueue ++ q.channel.filterMap Except.toOption

end PartQueue

/-- `RequestTask::push_front`: the parts, in offset order, pushed to the front last first. (The
task's count of remaining bytes is left out.) -/
def RequestTask.pushFront {ε : Type} (q : PartQueue ε) (parts : List Part) :
    Option (PartQueue ε) :=
  parts.reverse.foldlM PartQueue.pushFront q

namespace PartQueue

variable {ε : Type} {q : PartQueue ε}

/-! ### One operation at a time -/

/-- The queue holds no error and has not failed. -/
structure Sound (q : PartQueue ε) : Prop where
  failed_eq : q.failed = false
  channel_ok : ∀ x ∈ q.channel, ∃ p, x = .ok p

@[simp] theorem content_push (part : Part) : (q.push (.ok part)).content = q.content ++ [part] := by
  simp [push, content, Except.toOption]

theorem Sound.push (h : q.Sound) (part : Part) : (q.push (.ok part)).Sound := by
  refine ⟨h.failed_eq, fun x hx => ?_⟩
  rcases List.mem_append.1 hx with hx | hx
  · exact h.channel_ok x hx
  · exact ⟨part, List.mem_singleton.1 hx⟩

/-- A sound queue gives its first part to `next`. -/
theorem next_spec (h : q.Sound) {part : Part} {rest : List Part}
    (hq : q.content = part :: rest) :
    ∃ q', q.next = some (.ok part, q') ∧ q'.content = rest ∧ q'.Sound ∧
      q'.bytesReceived = q.bytesReceived := by
  unfold next
  cases hfront : q.frontQueue with
  | cons top below =>
    simp only [content, hfront, List.cons_append, List.cons.injEq] at hq
    obtain ⟨rfl, hrest⟩ := hq
    exact ⟨_, rfl, by simp [content, hrest], ⟨h.failed_eq, h.channel_ok⟩, rfl⟩
  | nil =>
    -- the stack is empty: the part is the channel's first
    cases hchan : q.channel with
    | nil => simp [content, hfront, hchan] at hq
    | cons x xs =>
      obtain ⟨p, rfl⟩ := h.channel_ok x (by simp [hchan])
      simp only [content, hfront, hchan, List.nil_append, List.filterMap_cons,
        Except.toOption, List.cons.injEq] at hq
      obtain ⟨rfl, hrest⟩ := hq
      refine ⟨_, rfl, by simp [content, hrest], ⟨h.failed_eq, fun y hy => ?_⟩, rfl⟩
      exact h.channel_ok y (by simp [hchan, hy])

/-- **A read** of `length` bytes, with the first part in the queue of at least one byte,
returns the first `min length part.len` bytes of that part and leaves the rest of it on top. -/
theorem read_spec (h : q.Sound) {part : Part} {rest : List Part}
    (hq : q.content = part :: rest) (length : ℕ) :
    ∃ q', q.read length = some (.ok (part.splitOff length).1, q') ∧ q'.Sound ∧
      q'.bytesReceived = q.bytesReceived ∧
      q'.content = (if length < part.len then [(part.splitOff length).2] else []) ++ rest := by
  obtain ⟨q₁, hnext, hrest, hs₁, hb₁⟩ := next_spec h hq
  simp only [read, h.failed_eq, Bool.false_eq_true, if_false, hnext, Option.map_some]
  by_cases hlt : length < part.len
  · refine ⟨{ q₁ with frontQueue := (part.splitOff length).2 :: q₁.frontQueue },
      by simp only [hlt, if_true], ⟨hs₁.failed_eq, hs₁.channel_ok⟩, hb₁, ?_⟩
    simp [content, hlt, ← hrest]
  · -- the whole part fits: it is returned as it is
    have hwhole : (part.splitOff length).1 = part := by
      simp only [Part.splitOff, Part.len] at hlt ⊢
      rw [List.take_of_length_le (by omega)]
    refine ⟨q₁, by simp only [hlt, if_false, hwhole], hs₁, hb₁, by simp [hlt, hrest]⟩

/-- A read on an empty queue waits. -/
theorem read_eq_none (h : q.Sound) (hq : q.content = []) (length : ℕ) : q.read length = none := by
  have hfront : q.frontQueue = [] := (List.append_eq_nil_iff.1 hq).1
  have hchan : q.channel = [] := by
    cases hc : q.channel with
    | nil => rfl
    | cons x xs =>
      obtain ⟨p, rfl⟩ := h.channel_ok x (by simp [hc])
      simp [content, hc, Except.toOption] at hq
  simp [read, h.failed_eq, next, hfront, hchan]

/-- Parts pushed to the front one by one, each on top of the one before. -/
theorem foldlM_pushFront (h : q.Sound) (parts : List Part) :
    ∃ q', parts.foldlM pushFront q = some q' ∧ q'.Sound ∧
      q'.bytesReceived = q.bytesReceived ∧ q'.content = parts.reverse ++ q.content := by
  induction parts generalizing q with
  | nil => exact ⟨q, rfl, h, rfl, rfl⟩
  | cons part parts ih =>
    have hfirst : q.pushFront part = some { q with frontQueue := part :: q.frontQueue } := by
      simp [pushFront, h.failed_eq]
    obtain ⟨q', hq', hs', hb', hc'⟩ := ih (q := { q with frontQueue := part :: q.frontQueue })
      ⟨h.failed_eq, h.channel_ok⟩
    refine ⟨q', by rw [List.foldlM_cons, hfirst]; exact hq', hs', hb', ?_⟩
    rw [hc']
    simp [content]

/-- Parts put back in front come first, in offset order. -/
theorem pushFront_spec (h : q.Sound) (parts : List Part) :
    ∃ q', RequestTask.pushFront q parts = some q' ∧ q'.Sound ∧
      q'.bytesReceived = q.bytesReceived ∧ q'.content = parts ++ q.content := by
  simpa only [RequestTask.pushFront, List.reverse_reverse] using foldlM_pushFront h parts.reverse

end PartQueue

/-! ## The reader and the producer together -/

/-- What happens at the queue: the producer pushes a part, the reader reads up to `length`
bytes, or puts parts back in front. -/
inductive Event
  | push (part : Part)
  | read (length : ℕ)
  | pushFront (parts : List Part)

/-- The parts an event sends through the producer. -/
def Event.sent : Event → List Part
  | .push part => [part]
  | _ => []

/-- The moves a run of events makes the reader take: a read of up to `length` bytes moves it on
by between one and `length` bytes, a push to the front steps it back over the parts. -/
inductive Event.Moves : List Event → List Move → Prop
  | nil : Moves [] []
  | push {es : List Event} {ms : List Move} (part : Part) :
      Moves es ms → Moves (es ++ [.push part]) ms
  | read {es : List Event} {ms : List Move} {length k : ℕ} :
      Moves es ms → 0 < k → k ≤ length → Moves (es ++ [.read length]) (ms ++ [.read k])
  | pushFront {es : List Event} {ms : List Move} (parts : List Part) :
      Moves es ms → Moves (es ++ [.pushFront parts]) (ms ++ [.rewind (totalLen parts)])

/-- The queue with the reader's moves and the bytes its reads returned, one after the other. -/
structure Reader (ε : Type) where
  queue : PartQueue ε
  moves : List Move
  delivered : List UInt8

namespace Reader

variable {ε : Type}

/-- A new queue, and a reader that has read nothing. -/
def init : Reader ε := ⟨.new, [], []⟩

/-- The reader's position in the object, for a stream from `s`. -/
def position (s : ℕ) (r : Reader ε) : ℕ := Move.position s r.moves

/-- One event; `none` once a read or a push to the front does not return. -/
def step : Option (Reader ε) → Event → Option (Reader ε)
  | none, _ => none
  | some r, .push part => some { r with queue := r.queue.push (.ok part) }
  | some r, .read length => (r.queue.read length).map fun (res, q) =>
    match res with
    | .ok part => ⟨q, r.moves ++ [.read part.len], r.delivered ++ part.data⟩
    | .error _ => { r with queue := q }
  | some r, .pushFront parts => (RequestTask.pushFront r.queue parts).map fun q =>
    ⟨q, r.moves ++ [.rewind (totalLen parts)], r.delivered⟩

/-- The events of the object `C` streamed from `s`: each push carries the object's next bytes
in a non-empty part, a read asks for at least one byte, and the parts put back in front are
non-empty and hold, one after the other, the bytes just before the reader's position. -/
def Fits (C : List UInt8) (s : ℕ) : Option (Reader ε) → Event → Prop
  | some r, .push part => part.data ≠ [] ∧ part.offset = s + r.queue.bytesReceived ∧
      part.data = (C.drop part.offset).take part.len
  | some _, .read length => 0 < length
  | some r, .pushFront parts => totalLen parts ≤ r.position s ∧ (∀ p ∈ parts, p.data ≠ []) ∧
      Contiguous (r.position s - totalLen parts) parts ∧
      bytes parts = (C.drop (r.position s - totalLen parts)).take (totalLen parts)
  | none, _ => True

/-- The queue of a stream of `C` from `s`: sound, and its parts non-empty and holding the
object's bytes from the reader's position to where the producer has got; and the reads returned
what a reader of `C` making the same moves sees. -/
structure Holds (C : List UInt8) (s : ℕ) (r : Reader ε) : Prop where
  sound : r.queue.Sound
  nonempty : ∀ p ∈ r.queue.content, p.data ≠ []
  contiguous : Contiguous (r.position s) r.queue.content
  bytes_eq : bytes r.queue.content = (C.drop (r.position s)).take (totalLen r.queue.content)
  end_eq : r.position s + totalLen r.queue.content = s + r.queue.bytesReceived
  delivered_eq : r.delivered = Move.log C s r.moves

variable {C : List UInt8} {s : ℕ} {r : Reader ε}

theorem holds_init : (init : Reader ε).Holds C s :=
  ⟨⟨rfl, fun _ h => by simp [init, PartQueue.new] at h⟩, by simp [init, PartQueue.new,
    PartQueue.content], by simp [init, PartQueue.new, PartQueue.content], by
    simp [init, PartQueue.new, PartQueue.content], by
    simp [init, PartQueue.new, PartQueue.content, position, Move.position], rfl⟩

/-- A push of the object's next bytes keeps the queue. -/
theorem Holds.push (h : r.Holds C s) {part : Part} (hfit : Fits C s (some r) (.push part)) :
    Holds C s { r with queue := r.queue.push (.ok part) } := by
  obtain ⟨hne, hoff, hdata⟩ := hfit
  -- the part starts where the queue's bytes end
  have hpos : part.offset = r.position s + totalLen r.queue.content := by
    rw [h.end_eq, hoff]
  refine ⟨h.sound.push part, ?_, ?_, ?_, ?_, h.delivered_eq⟩
  · intro p hp
    rw [PartQueue.content_push] at hp
    rcases List.mem_append.1 hp with hp | hp
    · exact h.nonempty p hp
    · exact (List.mem_singleton.1 hp) ▸ hne
  · show Contiguous (r.position s) (r.queue.push (.ok part)).content
    rw [PartQueue.content_push, contiguous_append]
    exact ⟨h.contiguous, by simp [hpos]⟩
  · show bytes (r.queue.push (.ok part)).content =
      (C.drop (r.position s)).take (totalLen (r.queue.push (.ok part)).content)
    rw [PartQueue.content_push, bytes_append, totalLen_append, h.bytes_eq, bytes_cons,
      bytes_nil, List.append_nil, hdata, hpos, totalLen_cons, totalLen_nil, Nat.add_zero,
      take_drop_append_take_drop]
  · show r.position s + totalLen (r.queue.push (.ok part)).content =
      s + (r.queue.push (.ok part)).bytesReceived
    simp only [PartQueue.content_push, totalLen_append, totalLen_cons, totalLen_nil]
    simp only [PartQueue.push]
    omega

/-- The first part in the queue starts at the reader's position and holds the object's bytes
there. -/
theorem Holds.first (h : r.Holds C s) {part : Part} {rest : List Part}
    (hq : r.queue.content = part :: rest) :
    part.offset = r.position s ∧ part.data = (C.drop (r.position s)).take part.len := by
  have hb := h.bytes_eq
  rw [hq, bytes_cons, totalLen_cons] at hb
  refine ⟨(contiguous_cons.1 (hq ▸ h.contiguous)).1, ?_⟩
  have := congrArg (List.take part.len) hb
  rwa [Part.len, List.take_left, List.take_take, Nat.min_eq_left (Nat.le_add_right _ _)] at this

/-- **A read** from a queue that holds bytes returns at least one byte and at most `length`,
where the reader is, and the object's bytes there; the queue goes on holding. -/
theorem Holds.read (h : r.Holds C s) {length : ℕ} (hlen : 0 < length)
    (hpos : r.position s < s + r.queue.bytesReceived) :
    ∃ part q, r.queue.read length = some (.ok part, q) ∧ part.offset = r.position s ∧
      0 < part.len ∧ part.len ≤ length ∧ part.data = (C.drop (r.position s)).take part.len ∧
      Holds C s ⟨q, r.moves ++ [.read part.len], r.delivered ++ part.data⟩ ∧
      q.bytesReceived = r.queue.bytesReceived := by
  -- the queue is not empty, so it has a first part
  obtain ⟨part, rest, hq⟩ : ∃ part rest, r.queue.content = part :: rest := by
    cases hc : r.queue.content with
    | nil =>
      have := h.end_eq
      rw [hc, totalLen_nil] at this
      omega
    | cons part rest => exact ⟨part, rest, rfl⟩
  obtain ⟨hoff, hdata⟩ := h.first hq
  have hne : 0 < part.len := List.length_pos_of_ne_nil (h.nonempty part (by simp [hq]))
  obtain ⟨q, hread, hsound, hrecv, hcontent⟩ := PartQueue.read_spec h.sound hq length
  set k := (part.splitOff length).1.len with hk
  have hk_eq : k = min length part.len := by
    simp only [hk, Part.splitOff, Part.len, List.length_take]
  -- what is left in the queue is the object's bytes from `k` bytes on
  have hleft : bytes q.content = (bytes r.queue.content).drop k ∧
      totalLen q.content = totalLen r.queue.content - k ∧ Contiguous (r.position s + k) q.content ∧
      ∀ p ∈ q.content, p.data ≠ [] := by
    have hrest := h.contiguous
    rw [hq, contiguous_cons] at hrest
    rw [hcontent, hq]
    by_cases hlt : length < part.len
    · have hks : k = length := by omega
      simp only [hlt, if_true, List.singleton_append, bytes_cons, totalLen_cons,
        Part.splitOff_snd_len]
      refine ⟨?_, by omega, ?_, ?_⟩
      · rw [hks, List.drop_append_of_le_length (by simp only [Part.len] at hlt; omega)]
        rfl
      · refine ⟨by simp [hoff, hks], ?_⟩
        have : r.position s + k + (part.len - length) = r.position s + part.len := by omega
        rw [Part.splitOff_snd_len, this]
        exact hrest.2
      · intro p hp
        rcases List.mem_cons.1 hp with rfl | hp
        · simp only [Part.splitOff, ne_eq, List.drop_eq_nil_iff]
          simp only [Part.len] at hlt
          omega
        · exact h.nonempty p (by simp [hq, hp])
    · have hks : k = part.len := by omega
      simp only [hlt, if_false, List.nil_append, bytes_cons, totalLen_cons]
      refine ⟨by rw [hks, Part.len, List.drop_left], by omega, by rw [hks]; exact hrest.2,
        fun p hp => h.nonempty p (by simp [hq, hp])⟩
  obtain ⟨hbytes, hlen', hcont, hnonempty⟩ := hleft
  refine ⟨_, q, hread, by simp [hoff], by omega, by omega, ?_,
    ⟨hsound, hnonempty, ?_, ?_, ?_, ?_⟩, hrecv⟩
  · -- the returned bytes are the first `k` of the part
    show (part.data.take length) = (C.drop (r.position s)).take k
    rw [hdata, List.take_take, hk_eq, Nat.min_comm]
  · simpa [position] using hcont
  · simp only [position, Move.position_append_read]
    rw [hbytes, h.bytes_eq, drop_slice, hlen']
    rfl
  · have hend := h.end_eq
    have htot : totalLen r.queue.content = part.len + totalLen rest := by rw [hq, totalLen_cons]
    simp only [position] at hend ⊢
    rw [Move.position_append_read, hlen', hrecv]
    omega
  · simp only [Move.log_append_read, h.delivered_eq]
    congr 1
    show part.data.take length = (C.drop (Move.position s r.moves)).take k
    rw [hdata, List.take_take, hk_eq, Nat.min_comm]
    rfl

/-- A read from an empty queue waits. -/
theorem Holds.read_eq_none (h : r.Holds C s) (hpos : r.position s = s + r.queue.bytesReceived)
    (length : ℕ) : r.queue.read length = none := by
  have hzero : totalLen r.queue.content = 0 := by
    have := h.end_eq
    omega
  -- the parts are all non-empty, so there are none
  have hnil : r.queue.content = [] := by
    cases hc : r.queue.content with
    | nil => rfl
    | cons p ps =>
      rw [hc, totalLen_cons] at hzero
      exact absurd (List.length_pos_of_ne_nil (h.nonempty p (by simp [hc]))) (by
        simp only [Part.len] at hzero
        omega)
  exact PartQueue.read_eq_none h.sound hnil length

/-- Parts put back in front that hold the bytes just before the reader keep the queue, with the
reader stepped back over them. -/
theorem Holds.pushFront (h : r.Holds C s) {parts : List Part}
    (hfit : Fits C s (some r) (.pushFront parts)) :
    ∃ q, RequestTask.pushFront r.queue parts = some q ∧
      Holds C s ⟨q, r.moves ++ [.rewind (totalLen parts)], r.delivered⟩ := by
  obtain ⟨hle, hne, hcont, hbytes⟩ := hfit
  obtain ⟨q, hpush, hsound, hrecv, hcontent⟩ := PartQueue.pushFront_spec h.sound parts
  have hback : Move.position s r.moves - totalLen parts + totalLen parts =
      Move.position s r.moves := by
    simp only [position] at hle
    omega
  refine ⟨q, hpush, hsound, ?_, ?_, ?_, ?_, ?_⟩
  · intro p hp
    rw [hcontent] at hp
    rcases List.mem_append.1 hp with hp | hp
    · exact hne p hp
    · exact h.nonempty p hp
  · show Contiguous (Move.position s (r.moves ++ [.rewind (totalLen parts)])) q.content
    rw [Move.position_append_rewind, hcontent, contiguous_append]
    refine ⟨hcont, ?_⟩
    rw [hback]
    exact h.contiguous
  · show bytes q.content =
      (C.drop (Move.position s (r.moves ++ [.rewind (totalLen parts)]))).take (totalLen q.content)
    rw [Move.position_append_rewind, hcontent, bytes_append, totalLen_append, hbytes, h.bytes_eq,
      ← take_drop_append_take_drop]
    simp only [position]
    rw [hback]
  · show Move.position s (r.moves ++ [.rewind (totalLen parts)]) + totalLen q.content =
      s + q.bytesReceived
    rw [Move.position_append_rewind, hcontent, totalLen_append, hrecv, ← h.end_eq]
    simp only [position] at hle ⊢
    omega
  · simpa using h.delivered_eq

/-- A reader's position is never past where the producer has got. -/
theorem Holds.position_le (h : r.Holds C s) : r.position s ≤ s + r.queue.bytesReceived := by
  have := h.end_eq
  omega

/-- **One event** keeps the queue, moves the reader as the event allows, and adds what it sent
to the producer's count. -/
theorem Holds.step (h : r.Holds C s) {e : Event} (hfit : Fits C s (some r) e) {r' : Reader ε}
    (hstep : step (some r) e = some r') :
    r'.Holds C s ∧ (∀ es, Event.Moves es r.moves → Event.Moves (es ++ [e]) r'.moves) ∧
      r'.queue.bytesReceived = r.queue.bytesReceived + totalLen e.sent := by
  cases e with
  | push part =>
    cases hstep
    refine ⟨h.push hfit, fun es hm => .push part hm, ?_⟩
    simp [PartQueue.push, Event.sent]
  | read length =>
    -- a read that returns found bytes in the queue
    by_cases hpos : r.position s < s + r.queue.bytesReceived
    · obtain ⟨part, q, hread, -, hk, hkl, -, hq, hrecv⟩ := h.read hfit hpos
      simp only [Reader.step, hread, Option.map_some, Option.some.injEq] at hstep
      subst hstep
      exact ⟨hq, fun es hm => .read hm hk hkl, by simpa [Event.sent] using hrecv⟩
    · have hread := h.read_eq_none (by have := h.position_le; omega) length
      simp [Reader.step, hread] at hstep
  | pushFront parts =>
    obtain ⟨q, hpush, hq⟩ := h.pushFront hfit
    simp only [Reader.step, hpush, Option.map_some, Option.some.injEq] at hstep
    subst hstep
    obtain ⟨q', hpush', -, hrecv, -⟩ := PartQueue.pushFront_spec h.sound parts
    rw [hpush] at hpush'
    cases hpush'
    exact ⟨hq, fun es hm => .pushFront parts hm, by simp [Event.sent, hrecv]⟩

/-- **Along every run** of the stream, the queue holds, the reader has made the moves the
events allow, and the producer's count is the length of what it sent. -/
theorem holds_run (C : List UInt8) (s : ℕ) (events : List Event)
    (hok : Allowed step (Fits C s) (some (init : Reader ε)) events) {r : Reader ε}
    (hr : run step (some init) events = some r) :
    r.Holds C s ∧ Event.Moves events r.moves ∧
      r.queue.bytesReceived = totalLen (events.flatMap Event.sent) := by
  induction events using List.reverseRecOn generalizing r with
  | nil =>
    cases hr
    exact ⟨holds_init, .nil, rfl⟩
  | append_singleton es e ih =>
    rw [allowed_append] at hok
    rw [run_concat] at hr
    -- the run up to the last event did not stop
    cases hpre : run step (some init) es with
    | none =>
      rw [hpre] at hr
      cases hr
    | some r₀ =>
      obtain ⟨h₀, hm₀, hb₀⟩ := ih hok.1 hpre
      have hfit : Fits C s (some r₀) e := by
        simpa [hpre] using hok.2
      rw [hpre] at hr
      obtain ⟨h, hm, hb⟩ := h₀.step hfit hr
      refine ⟨h, hm es hm₀, ?_⟩
      rw [hb, hb₀, List.flatMap_append, totalLen_append, List.flatMap_singleton]

end Reader

open Reader in
theorem part_queue_delivers_in_order {ε : Type} (C : List UInt8) (s : ℕ) (events : List Event)
    (hok : Allowed step (Fits C s) (some (init : Reader ε)) events) (r : Reader ε)
    (hr : run step (some init) events = some r) :
    r.delivered = Move.log C s r.moves ∧ Event.Moves events r.moves ∧
      r.queue.bytesReceived = totalLen (events.flatMap Event.sent) ∧
      ∀ length, 0 < length →
        (r.position s < s + r.queue.bytesReceived →
          ∃ part q, r.queue.read length = some (.ok part, q) ∧ part.offset = r.position s ∧
            0 < part.len ∧ part.len ≤ length ∧
            part.data = (C.drop (r.position s)).take part.len) ∧
        (r.position s = s + r.queue.bytesReceived → r.queue.read length = none) := by
  obtain ⟨h, hm, hb⟩ := holds_run C s events hok hr
  refine ⟨h.delivered_eq, hm, hb, fun length hlen => ⟨fun hpos => ?_, fun hpos =>
    h.read_eq_none hpos length⟩⟩
  obtain ⟨part, q, hread, hoff, hk, hkl, hdata, -⟩ := h.read hlen hpos
  exact ⟨part, q, hread, hoff, hk, hkl, hdata⟩

/-- Two parts pushed, and two reads: the first takes one byte of the first part and puts the
rest back on top, the second takes that rest. -/
theorem part_queue_delivers_in_order_two_reads :
    Allowed Reader.step (Reader.Fits [1, 2, 3] 0) (some (Reader.init : Reader Empty))
        [.push ⟨0, [1, 2]⟩, .read 1, .push ⟨2, [3]⟩, .read 5] ∧
      run Reader.step (some (Reader.init : Reader Empty))
          [.push ⟨0, [1, 2]⟩, .read 1, .push ⟨2, [3]⟩, .read 5] =
        some ⟨⟨[], [.ok ⟨2, [3]⟩], false, 3⟩, [.read 1, .read 1], [1, 2]⟩ ∧
      ([1, 2] : List UInt8) = Move.log [1, 2, 3] 0 [.read 1, .read 1] :=
  have hok : Allowed Reader.step (Reader.Fits [1, 2, 3] 0) (some (Reader.init : Reader Empty))
      [.push ⟨0, [1, 2]⟩, .read 1, .push ⟨2, [3]⟩, .read 5] :=
    ⟨⟨by decide, rfl, by decide⟩, show 0 < 1 by decide, ⟨by decide, rfl, by decide⟩,
      show 0 < 5 by decide, trivial⟩
  ⟨hok, rfl, (part_queue_delivers_in_order [1, 2, 3] 0 _ hok _ rfl).1⟩

/-- An empty part put back in front just before the reader fits every other condition on the
parts put back, and the next read returns it: a read of no bytes. -/
theorem part_queue_reads_empty_part_put_back :
    totalLen [(⟨0, []⟩ : Part)] ≤ (Reader.init : Reader Empty).position 0 ∧
      Contiguous ((Reader.init : Reader Empty).position 0 - totalLen [⟨0, []⟩]) [⟨0, []⟩] ∧
      bytes [(⟨0, []⟩ : Part)] = (([1, 2, 3] : List UInt8).drop 0).take 0 ∧
      ∃ q q', RequestTask.pushFront (PartQueue.new : PartQueue Empty) [⟨0, []⟩] = some q ∧
        q.read 1 = some (.ok ⟨0, []⟩, q') ∧ (⟨0, []⟩ : Part).len = 0 :=
  ⟨by decide, ⟨rfl, trivial⟩, rfl, _, _, rfl, rfl, rfl⟩

end MountpointS3.Prefetch
