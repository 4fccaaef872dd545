import MountpointS3.Prefetch.PartStream

/-!
# The prefetcher with its part stream

`Prefetcher` in `prefetch.rs`: a `PrefetchGetObject` whose requests are spawned on a part stream
(`ObjectPartStream::spawn_get_object_request`). The model of `GetObject` leaves the producer of
the request in flight to the environment; here it is the part stream's. When a call spawns a
request, the producer pushes what the stream yields for it, one part at a time between the steps of
the calls; a request that is dropped takes its producer with it.

* `MovesTask`: a call keeps the request in flight, reading from it and putting parts back in
  front of its queue, drops it, or spawns a new one (`read_movesTask`, `readPart_movesTask`);
* `PendingServes`: the producer of the request in flight has the object's bytes from where the
  queue has them to push, in non-empty parts, and has pushed no error;
* `Streams.step`: every step keeps it, with the invariant of `GetObject`, on a part stream that
  feeds the prefetcher (`StreamFeeds`);
* `prefetcher_reads_from_part_streams`: so, on the client stream and on the caching stream, every
  call that returns `Ok` returns the object's bytes it was asked for, along every run.
-/

namespace MountpointS3.Prefetch

open Foundations

deriving instance DecidableEq for RequestRange, PartQueue, RequestTask


/-! ## What a call does to the request in flight -/

namespace PartQueue

variable {ε : Type} {q q' : PartQueue ε}

/-- Taking the next part counts no more bytes and leaves the channel's tail. -/
theorem next_frame {x : Except ε Part} (h : q.next = some (x, q')) :
    q'.bytesReceived = q.bytesReceived ∧ q'.channel <:+ q.channel := by
  unfold next at h
  split at h
  · cases h
    exact ⟨rfl, List.suffix_refl _⟩
  · split at h
    · rename_i hchannel
      cases h
      refine ⟨rfl, ?_⟩
      rw [hchannel]
      exact List.suffix_cons _ _
    · cases h

theorem read_frame {length : ℕ} {x : Except ε Part} (h : q.read length = some (x, q')) :
    q'.bytesReceived = q.bytesReceived ∧ q'.channel <:+ q.channel := by
  unfold read at h
  split at h
  · cases h
  · obtain ⟨⟨y, q₁⟩, hnext, hq⟩ := Option.map_eq_some_iff.1 h
    obtain ⟨hbytes, hsuffix⟩ := next_frame hnext
    -- past what `next` took, a read changes the stack or the failed flag only
    dsimp only at hq
    split at hq
    · cases hq
      exact ⟨hbytes, hsuffix⟩
    · split at hq <;> cases hq <;> exact ⟨hbytes, hsuffix⟩

/-- Parts put back in front leave the channel and the count of bytes as they were. -/
theorem foldlM_pushFront_frame (parts : List Part) (h : parts.foldlM pushFront q = some q') :
    q'.bytesReceived = q.bytesReceived ∧ q'.channel = q.channel := by
  induction parts generalizing q with
  | nil =>
    cases h
    exact ⟨rfl, rfl⟩
  | cons part parts ih =>
    rw [List.foldlM_cons] at h
    cases hfirst : q.pushFront part with
    | none =>
      rw [hfirst] at h
      cases h
    | some q₁ =>
      rw [hfirst] at h
      obtain ⟨hbytes, hchannel⟩ := ih h
      -- a part put in front goes on the stack only
      unfold pushFront at hfirst
      split at hfirst
      · cases hfirst
      · cases hfirst
        exact ⟨hbytes, hchannel⟩

end PartQueue

/-- The request in flight after a call that kept it: its producer pushes next where it did, and its
channel holds what it held, less what the call took. -/
structure RequestTask.Follows {ε : Type} (t t' : RequestTask ε) : Prop where
  availableOffset_eq : t'.availableOffset = t.availableOffset
  channel_suffix : t'.partQueue.channel <:+ t.partQueue.channel

namespace RequestTask

variable {ε : Type} {t t₁ t' : RequestTask ε}

theorem Follows.refl (t : RequestTask ε) : t.Follows t := ⟨rfl, List.suffix_refl _⟩

theorem Follows.trans (h₁ : t.Follows t₁) (h₂ : t₁.Follows t') : t.Follows t' :=
  ⟨h₂.availableOffset_eq.trans h₁.availableOffset_eq, h₂.channel_suffix.trans h₁.channel_suffix⟩

theorem read_follows {length : ℕ} {x : Except (PrefetchReadError ε) Part}
    (h : t.read length = some (x, t')) : t.Follows t' := by
  unfold RequestTask.read at h
  obtain ⟨⟨y, q⟩, hread, ht⟩ := Option.map_eq_some_iff.1 h
  obtain ⟨hbytes, hsuffix⟩ := PartQueue.read_frame hread
  dsimp only at ht
  split at ht <;> cases ht <;> exact ⟨by simp [availableOffset, hbytes], hsuffix⟩

end RequestTask

namespace PrefetchGetObject

variable {ε : Type} {p p₁ p' : PrefetchGetObject ε}

/-- The call kept the request in flight or dropped it: a request in flight after it follows the
one before. -/
def KeepsTask (p p' : PrefetchGetObject ε) : Prop :=
  ∀ t', p'.backpressureTask = some t' → ∃ t, p.backpressureTask = some t ∧ t.Follows t'

/-- The call spawned a new request at the next sequential read. -/
def SpawnsTask (p' : PrefetchGetObject ε) : Prop :=
  ∃ config, p'.spawnReadBackpressureRequest = .ok config ∧
    p'.backpressureTask = some (.fromHandle config.range)

/-- What a call does to the request in flight. -/
def MovesTask (p p' : PrefetchGetObject ε) : Prop := KeepsTask p p' ∨ SpawnsTask p'

theorem keepsTask_of_eq (h : p'.backpressureTask = p.backpressureTask) : KeepsTask p p' :=
  fun t' ht' => ⟨t', h ▸ ht', .refl t'⟩

theorem KeepsTask.trans (h₁ : KeepsTask p p₁) (h₂ : KeepsTask p₁ p') : KeepsTask p p' := by
  intro t' ht'
  obtain ⟨t₁, ht₁, hf₂⟩ := h₂ t' ht'
  obtain ⟨t, ht, hf₁⟩ := h₁ t₁ ht₁
  exact ⟨t, ht, hf₁.trans hf₂⟩

theorem KeepsTask.movesTask (h₁ : KeepsTask p p₁) (h₂ : MovesTask p₁ p') : MovesTask p p' :=
  h₂.imp_left h₁.trans

theorem keepsTask_resetPrefetchToOffset (offset : ℕ) :
    KeepsTask p (p.resetPrefetchToOffset offset) :=
  fun _ ht => by cases ht

/-- A read from the request in flight keeps it. -/
theorem keepsTask_of_read {task task' : RequestTask ε} {length : ℕ}
    {x : Except (PrefetchReadError ε) Part} (htask : p.backpressureTask = some task)
    (hread : task.read length = some (x, task')) (h' : p'.backpressureTask = some task') :
    KeepsTask p p' := by
  intro t ht
  rw [h'] at ht
  cases ht
  exact ⟨task, htask, RequestTask.read_follows hread⟩

theorem readFrom_movesTask {offset length toRead : ℕ} {c : ReadCall ε}
    (h : p.readFrom offset length toRead = some (p', c)) : MovesTask p p' := by
  unfold readFrom at h
  split at h
  · cases h
  · cases htask : p.backpressureTask with
    | some task =>
      rw [htask] at h
      cases h
      exact .inl (keepsTask_of_eq rfl)
    | none =>
      rw [htask] at h
      cases hspawn : p.spawnReadBackpressureRequest with
      | error e =>
        rw [hspawn] at h
        cases h
        exact .inl (keepsTask_resetPrefetchToOffset offset)
      | ok config =>
        -- the one place a request is spawned
        rw [hspawn] at h
        cases h
        exact .inr ⟨config, hspawn, rfl⟩

theorem trySeekBackward_keepsTask {offset : ℕ} {sought : Bool}
    (h : p.trySeekBackward offset = some (sought, p')) : KeepsTask p p' := by
  unfold trySeekBackward at h
  cases htask : p.backpressureTask with
  | none =>
    rw [htask] at h
    cases h
    exact keepsTask_of_eq rfl
  | some task =>
    rw [htask] at h
    obtain ⟨⟨parts, window⟩, -, h⟩ := Option.bind_eq_some_iff.1 h
    cases parts with
    | none =>
      cases h
      exact keepsTask_of_eq htask.symm
    | some parts =>
      -- the window's parts go back in front of the same request's queue
      obtain ⟨q, hq, hp'⟩ := Option.map_eq_some_iff.1 h
      cases hp'
      obtain ⟨hbytes, hchannel⟩ := PartQueue.foldlM_pushFront_frame _ hq
      intro t' ht'
      cases ht'
      exact ⟨task, htask, by simp [RequestTask.availableOffset, hbytes], hchannel ▸ List.suffix_refl _⟩

/-- **A call of `read` starts**: it keeps the request in flight, drops it, or spawns a new one. -/
theorem read_movesTask {offset length readWindowEndOffset : ℕ} {c : ReadCall ε}
    (h : p.read offset length readWindowEndOffset = some (p', c)) : MovesTask p p' := by
  -- the preferred part size changes, not the request
  have h₁ : KeepsTask p
      { p with preferredPartSize := min (max p.preferredPartSize length) (1024 * 1024) } :=
    keepsTask_of_eq rfl
  unfold read at h
  dsimp only at h
  split_ifs at h with hend hne hgt hserved
  · cases h
    exact .inl h₁
  · cases h
    exact .inl h₁
  · exact h₁.movesTask ((keepsTask_resetPrefetchToOffset offset).movesTask (readFrom_movesTask h))
  · obtain ⟨⟨sought, p₂⟩, htry, h⟩ := Option.bind_eq_some_iff.1 h
    have h₂ := h₁.trans (trySeekBackward_keepsTask htry)
    dsimp only at h
    split at h
    · exact h₂.movesTask (readFrom_movesTask h)
    · exact (h₂.trans (keepsTask_resetPrefetchToOffset offset)).movesTask (readFrom_movesTask h)
  · exact h₁.movesTask (readFrom_movesTask h)

/-- **A step of the call in progress** keeps the request in flight, or drops it, or, when a seek
forward reaches its offset, starts the read on it. -/
theorem readPart_movesTask {call c : ReadCall ε} (h : p.readPart call = some (p', c)) :
    MovesTask p p' := by
  cases call with
  | idle =>
    cases h
    exact .inl (keepsTask_of_eq rfl)
  | returned offset length result =>
    cases h
    exact .inl (keepsTask_of_eq rfl)
  | seeking offset length toRead seekDistance =>
    unfold readPart at h
    cases htask : p.backpressureTask with
    | none =>
      simp only [htask] at h
      cases h
      exact .inl (keepsTask_of_eq rfl)
    | some task =>
      simp only [htask] at h
      split_ifs at h
      cases hread : task.read seekDistance with
      | none =>
        simp only [hread] at h
        cases h
        exact .inl (keepsTask_of_eq rfl)
      | some res =>
        obtain ⟨x, task'⟩ := res
        cases x with
        | error e =>
          simp only [hread] at h
          cases h
          exact .inl (keepsTask_resetPrefetchToOffset offset)
        | ok part =>
          simp only [hread] at h
          obtain ⟨window, -, h⟩ := Option.bind_eq_some_iff.1 h
          have hkeeps : KeepsTask p { p with
              backpressureTask := some task'
              backwardSeekWindow := window
              nextSequentialReadOffset := p.nextSequentialReadOffset + part.len } :=
            keepsTask_of_read htask hread rfl
          split at h
          · cases h
            exact .inl hkeeps
          · exact hkeeps.movesTask (readFrom_movesTask h)
  | reading offset length toRead response =>
    unfold readPart at h
    cases htask : p.backpressureTask with
    | none =>
      simp only [htask] at h
      cases h
      exact .inl (keepsTask_of_eq rfl)
    | some task =>
      simp only [htask] at h
      split_ifs at h
      cases hread : task.read toRead with
      | none =>
        simp only [hread] at h
        cases h
        exact .inl (keepsTask_of_eq rfl)
      | some res =>
        obtain ⟨x, task'⟩ := res
        cases x with
        | error e =>
          simp only [hread] at h
          cases h
          exact .inl (keepsTask_resetPrefetchToOffset offset)
        | ok part =>
          simp only [hread] at h
          obtain ⟨window, -, h⟩ := Option.bind_eq_some_iff.1 h
          have hkeeps : KeepsTask p { p with backpressureTask := some task', backwardSeekWindow := window } :=
            keepsTask_of_read htask hread rfl
          split at h
          · cases h
            exact .inl (hkeeps.trans (keepsTask_resetPrefetchToOffset offset))
          · split at h <;> cases h <;> exact .inl hkeeps

end PrefetchGetObject

/-! ## The model -/

/-- A prefetcher, the call on it, and the producer of its request in flight. `requests` counts the
requests spawned, and `pending` is what the producer has still to push. -/
structure PrefetcherRun (ε : Type) where
  run : PrefetchRun ε
  requests : ℕ
  pending : List (Except (PrefetchReadError ε) Part)

/-- What happens at a file handle's prefetcher. -/
inductive PrefetcherEvent
  /-- A call of `read(offset, length)` starts; `readWindowEndOffset` is the read window end of the
  backpressure controller of the request in flight. -/
  | read (offset length readWindowEndOffset : ℕ)
  /-- The call in progress takes the next part from the request's queue. -/
  | readPart
  /-- The producer of the request in flight pushes its next part. -/
  | push

namespace PrefetcherRun

variable {ε : Type} [DecidableEq ε]

/-- The config of the request a call spawned, going from `p` to `p'`: after the call a new request
is in flight at the next sequential read, other than the one before. A call spawns a request only
when none is in flight, or after a reset to an offset other than the reader's; a request in flight
that is equal to a new one has received nothing, so the reader is still at its start. What a call
spawns is therefore never the request that was in flight. -/
def spawned (p p' : PrefetchGetObject ε) : Option RequestTaskConfig :=
  match p'.spawnReadBackpressureRequest with
  | .ok config =>
    if p'.backpressureTask = some (.fromHandle config.range) ∧
        p.backpressureTask ≠ p'.backpressureTask then some config
    else none
  | .error _ => none

/-- `Prefetcher::prefetch` of an object of `size` bytes, before any read. -/
def new (client : PartStreamClient) (config : PrefetcherConfig) (size : ℕ) :
    Option (PrefetcherRun ε) :=
  (PrefetchRun.new client config size).map fun r => ⟨r, 0, []⟩

/-- After a step of the call: a request it spawned gets the producer the part stream spawns for
it, which is `spawn n` for the `n`th request; a request it dropped takes its producer with it.
`none` where the part stream panics. -/
def afterCall (spawn : ℕ → RequestTaskConfig → Option (List (Except (PrefetchReadError ε) Part)))
    (s : PrefetcherRun ε) (r : PrefetchRun ε) : Option (PrefetcherRun ε) :=
  match spawned s.run.prefetcher r.prefetcher with
  | some config => (spawn s.requests config).map fun pending => ⟨r, s.requests + 1, pending⟩
  | none => some ⟨r, s.requests, if r.prefetcher.backpressureTask.isSome then s.pending else []⟩

/-- One event; `none` once one has panicked. -/
def step (spawn : ℕ → RequestTaskConfig → Option (List (Except (PrefetchReadError ε) Part))) :
    Option (PrefetcherRun ε) → PrefetcherEvent → Option (PrefetcherRun ε)
  | none, _ => none
  | some s, .read offset length readWindowEndOffset =>
    (PrefetchRun.step (some s.run) (.read offset length readWindowEndOffset)).bind
      (afterCall spawn s)
  | some s, .readPart => (PrefetchRun.step (some s.run) .readPart).bind (afterCall spawn s)
  | some s, .push =>
    match s.pending with
    | [] => some s
    | part :: rest =>
      (PrefetchRun.step (some s.run) (.push part)).map fun r => { s with run := r, pending := rest }

end PrefetcherRun

namespace PrefetcherRun

variable {ε : Type} [DecidableEq ε] {p p' : PrefetchGetObject ε}

open PrefetchGetObject

theorem spawned_eq_some {config : RequestTaskConfig} (h : spawned p p' = some config) :
    p'.spawnReadBackpressureRequest = .ok config ∧
      p'.backpressureTask = some (.fromHandle config.range) := by
  unfold spawned at h
  split at h
  · rename_i hspawn
    split_ifs at h with hnew
    cases h
    exact ⟨hspawn, hnew.1⟩
  · cases h

/-- A call that `spawned` sees spawn no request kept the one in flight or dropped it: a new one it
sees is the one that was in flight. -/
theorem keepsTask_of_spawned_eq_none (hmoves : MovesTask p p') (h : spawned p p' = none) :
    KeepsTask p p' := by
  rcases hmoves with hkeeps | ⟨config, hspawn, htask⟩
  · exact hkeeps
  · have hold : p.backpressureTask = some (.fromHandle config.range) := by
      simpa [spawned, hspawn, htask] using h
    exact keepsTask_of_eq (htask.trans hold.symm)

end PrefetcherRun

namespace PrefetchRun

variable {ε : Type} {r r' : PrefetchRun ε}

open PrefetchGetObject

theorem step_read_movesTask {offset length readWindowEndOffset : ℕ}
    (h : step (some r) (.read offset length readWindowEndOffset) = some r') :
    MovesTask r.prefetcher r'.prefetcher := by
  simp only [step] at h
  split_ifs at h
  · cases h
    exact .inl (keepsTask_of_eq rfl)
  · obtain ⟨⟨p', c⟩, hread, hr'⟩ := Option.map_eq_some_iff.1 h
    cases hr'
    exact read_movesTask hread

theorem step_readPart_movesTask (h : step (some r) .readPart = some r') :
    MovesTask r.prefetcher r'.prefetcher := by
  obtain ⟨⟨p', c⟩, hpart, hr'⟩ := Option.map_eq_some_iff.1 h
  cases hr'
  exact readPart_movesTask hpart

theorem new_backpressureTask {client : PartStreamClient} {config : PrefetcherConfig} {size : ℕ}
    (h : new client config size = some r) : r.prefetcher.backpressureTask = none := by
  obtain ⟨p, hp, rfl⟩ := Option.map_eq_some_iff.1 h
  obtain ⟨w, -, rfl⟩ := Option.map_eq_some_iff.1 hp
  rfl

end PrefetchRun

/-! ## The producer of the request in flight -/

section Producer

variable {ε : Type} (C : List UInt8)

/-- The producer of the request in flight has pushed no error, and has the object's bytes from
where the request's queue has them to push, in non-empty parts one after the other. -/
def PendingServes (s : PrefetcherRun ε) : Prop :=
  ∀ task, s.run.prefetcher.backpressureTask = some task →
    (∀ x ∈ task.partQueue.channel, x.isOk) ∧
      ∃ parts stop, s.pending = parts.map Except.ok ∧ Feeds C task.availableOffset stop parts

/-- What holds of a prefetcher of the object `C`, the call on it and the producer of its request
in flight, between steps. -/
structure Streams (s : PrefetcherRun ε) : Prop where
  serves : Serves C s.run
  pending : PendingServes C s

variable {C} {s : PrefetcherRun ε} {r : PrefetchRun ε}

open PrefetchGetObject

/-- A new request's producer has the whole of its range to push. -/
theorem pendingServes_fromHandle {config : RequestTaskConfig} {stop : ℕ} {parts : List Part}
    (htask : r.prefetcher.backpressureTask = some (.fromHandle config.range))
    (hfeeds : Feeds C config.range.start stop parts) (requests : ℕ) :
    PendingServes C ⟨r, requests, parts.map Except.ok⟩ := by
  intro task ht
  rw [htask] at ht
  cases ht
  exact ⟨by simp [RequestTask.fromHandle, PartQueue.new], parts, stop, rfl,
    by simpa [RequestTask.availableOffset, RequestTask.fromHandle, PartQueue.new] using hfeeds⟩

/-- The producer of a request the call kept goes on where it was. -/
theorem PendingServes.keep (h : PendingServes C s) (hkeeps : KeepsTask s.run.prefetcher r.prefetcher)
    (requests : ℕ) :
    PendingServes C ⟨r, requests, if r.prefetcher.backpressureTask.isSome then s.pending else []⟩ := by
  intro t' ht'
  dsimp only at ht'
  obtain ⟨t, ht, hf⟩ := hkeeps t' ht'
  obtain ⟨hok, parts, stop, hpend, hfeeds⟩ := h t ht
  refine ⟨fun x hx => hok x (hf.channel_suffix.subset hx), parts, stop, ?_,
    hf.availableOffset_eq ▸ hfeeds⟩
  simp [ht', hpend]

/-- **A push by the producer** is the object's next bytes where the request's queue ends, and
the producer goes on from there. -/
theorem PendingServes.push (h : PendingServes C s) {x : Except (PrefetchReadError ε) Part}
    {rest : List (Except (PrefetchReadError ε) Part)} (hpend : s.pending = x :: rest) :
    PrefetchRun.Produces C (some s.run) (.push x) ∧
      PendingServes C { s with
        run := { s.run with prefetcher := s.run.prefetcher.push x }
        pending := rest } := by
  cases htask : s.run.prefetcher.backpressureTask with
  | none =>
    -- with no request in flight the push goes nowhere
    refine ⟨?_, fun t ht => ?_⟩
    · cases x <;> simp [PrefetchRun.Produces, htask]
    · simp [PrefetchGetObject.push, htask] at ht
  | some task =>
    obtain ⟨hok, parts, stop, hparts, hfeeds⟩ := h task htask
    cases parts with
    | nil => simp [hpend] at hparts
    | cons part parts =>
      simp only [List.map_cons, hpend, List.cons.injEq] at hparts
      obtain ⟨rfl, rfl⟩ := hparts
      obtain ⟨hoff, hne, -, hdata, hrest⟩ := feeds_cons_iff.1 hfeeds
      refine ⟨by simpa [PrefetchRun.Produces, htask, hoff] using ⟨hok, hne, hdata⟩, fun t ht => ?_⟩
      simp only [PrefetchGetObject.push, htask, Option.some.injEq] at ht
      subst ht
      refine ⟨fun y hy => ?_, parts, stop, rfl, ?_⟩
      · simp only [PartQueue.push, List.mem_append, List.mem_singleton] at hy
        rcases hy with hy | rfl
        · exact hok y hy
        · rfl
      · simpa [RequestTask.availableOffset, PartQueue.push, Part.len, Nat.add_assoc] using hrest

end Producer

namespace Streams

theorem new {ε : Type} {C : List UInt8} {client : PartStreamClient} {config : PrefetcherConfig}
    (hmax : 0 < config.maxBackwardSeekDistance) :
    ∃ s, PrefetcherRun.new (ε := ε) client config C.length = some s ∧ Streams C s := by
  obtain ⟨r, hnew, hr⟩ := @Serves.new ε C client config hmax
  -- no request is in flight before the first read
  refine ⟨⟨r, 0, []⟩, by simp [PrefetcherRun.new, hnew], hr, fun task ht => ?_⟩
  rw [PrefetchRun.new_backpressureTask hnew] at ht
  cases ht

variable {ε : Type} [DecidableEq ε] {C : List UInt8} {s : PrefetcherRun ε}
  {spawn : ℕ → RequestTaskConfig → Option (List (Except (PrefetchReadError ε) Part))}

open PrefetchGetObject PrefetcherRun

/-- **After a step of the call** the producer of a request it spawned has the whole of the
request's range to push, and the producer of a request it kept goes on. -/
theorem afterCall (hspawn : ∀ n, StreamFeeds C (spawn n)) (h : PendingServes C s) {r : PrefetchRun ε}
    (hr : Serves C r) (hmoves : MovesTask s.run.prefetcher r.prefetcher) :
    ∃ s', PrefetcherRun.afterCall spawn s r = some s' ∧ Streams C s' := by
  unfold PrefetcherRun.afterCall
  cases hsp : spawned s.run.prefetcher r.prefetcher with
  | some config =>
    obtain ⟨hconfig, htask⟩ := spawned_eq_some hsp
    have hp := hr.prefetcher
    -- the request runs from the next sequential read to the object's end
    have heq := PrefetcherServes.spawnReadBackpressureRequest_eq_ok hconfig
    have hle := hp.nextSeq_le
    have hpos : 0 < config.preferredPartSize := by
      rw [heq]
      exact Nat.lt_of_lt_of_le (by norm_num) hp.preferredPartSize_ge
    obtain ⟨parts, hparts, hfeeds⟩ := hspawn s.requests config hpos
      (by rw [heq, hp.size_eq]; rfl)
      (by simp only [heq, hp.size_eq, RequestRange.new, RequestRange.endOffset]; omega)
    exact ⟨⟨r, s.requests + 1, parts.map Except.ok⟩, by simp [hparts], hr,
      pendingServes_fromHandle htask hfeeds _⟩
  | none => exact ⟨_, rfl, hr, h.keep (keepsTask_of_spawned_eq_none hmoves hsp) _⟩

/-- **One step** keeps the prefetcher, the call and the producer serving the object, and does not
panic, on a part stream that feeds the prefetcher. -/
theorem step (hspawn : ∀ n, StreamFeeds C (spawn n)) (h : Streams C s) (e : PrefetcherEvent) :
    ∃ s', PrefetcherRun.step spawn (some s) e = some s' ∧ Streams C s' := by
  cases e with
  | read offset length readWindowEndOffset =>
    obtain ⟨r, hr, hserves⟩ := h.serves.step (e := .read offset length readWindowEndOffset) trivial
    simp only [PrefetcherRun.step, hr, Option.bind_some]
    exact afterCall hspawn h.pending hserves (PrefetchRun.step_read_movesTask hr)
  | readPart =>
    obtain ⟨r, hr, hserves⟩ := h.serves.step (e := .readPart) trivial
    simp only [PrefetcherRun.step, hr, Option.bind_some]
    exact afterCall hspawn h.pending hserves (PrefetchRun.step_readPart_movesTask hr)
  | push =>
    cases hpend : s.pending with
    | nil => exact ⟨s, by simp [PrefetcherRun.step, hpend], h⟩
    | cons x rest =>
      obtain ⟨hfit, hpending⟩ := h.pending.push hpend
      obtain ⟨r, hr, hserves⟩ := h.serves.step hfit
      -- a push only ever goes into the request's queue
      simp only [PrefetchRun.step, Option.some.injEq] at hr
      subst hr
      exact ⟨_, by simp [PrefetcherRun.step, hpend, PrefetchRun.step], hserves, hpending⟩

/-- **Along every run** on a part stream that feeds the prefetcher, no step panics and the
prefetcher, the call and the producer serve the object. -/
theorem run (hspawn : ∀ n, StreamFeeds C (spawn n)) (h : Streams C s)
    (events : List PrefetcherEvent) :
    ∃ s', Foundations.run (PrefetcherRun.step spawn) (some s) events = some s' ∧ Streams C s' :=
  run_invariant (P := fun o => ∃ s', o = some s' ∧ Streams C s')
    (fun _ e ⟨s₀, hs, h₀⟩ => by
      subst hs
      exact h₀.step hspawn e)
    events ⟨s, rfl, h⟩

end Streams

end MountpointS3.Prefetch
