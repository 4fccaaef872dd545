import Mathlib
import MountpointS3.Foundations.Run

/-!
# Backpressure between a prefetch request's consumer and producer

`prefetch/backpressure_controller.rs`. The consumer of a prefetch request holds a
`BackpressureController` and the producer a `BackpressureLimiter`. Each keeps its own copy of the
end of the read window; the controller sends every increment of its copy over an unbounded
channel, which the limiter drains whole. The controller grows the window as data is read out,
scaling its preferred window size down when the memory limiter refuses a reservation, and up when
the part queue stalls.

The pair and the channel are one system, `Backpressure`, run by three kinds of events, each
atomic: a whole `send_feedback`; a call of `wait_for_read_window_increment` up to where it
returns or blocks on the channel; one wake-up of a blocked call by what was sent. The memory
limiter is shared with the other requests, so its answers come with each event
(`MemoryAnswers`).

* `growWindow_grown`: what the loop of `send_feedback` does to the controller;
* `inv_step`, `inv_run`: every event keeps `Inv`: the limiter's window end and the increments in
  the channel add up to the controller's, the window end stays within the request, the
  preferred size is the initial one or lies between the bounds, and, where no size is below 2,
  the window ends after the next read offset;
* `waitForReadWindowIncrement_ready`, `resume_ready`: a call returns only once the window ends
  after its offset or at the request end;
* `ReadWindowAlignmentConfig.rounds`: `align` rounds an end up to a part boundary; it panics on
  a part size of zero.
-/

namespace MountpointS3.Prefetch

open Foundations

/-! ## Rounding up -/

/-- `u64::next_multiple_of`; `none` where it panics, on a zero divisor. -/
def nextMultipleOf (n m : ℕ) : Option ℕ :=
  if m = 0 then none
  else if n % m = 0 then some n
  else some (n + (m - n % m))

theorem le_of_nextMultipleOf_eq_some {n m r : ℕ} (h : nextMultipleOf n m = some r) : n ≤ r := by
  unfold nextMultipleOf at h
  split_ifs at h
  · cases h
    exact Nat.le_refl n
  · cases h
    exact Nat.le_add_right n _

/-- With a positive divisor, `next_multiple_of` is the least multiple at or above `n`. -/
theorem nextMultipleOf_spec (n : ℕ) {m : ℕ} (hm : 0 < m) :
    ∃ r, nextMultipleOf n m = some r ∧ n ≤ r ∧ m ∣ r ∧ r < n + m := by
  have hdiv := Nat.div_add_mod n m
  have hlt := Nat.mod_lt n hm
  by_cases hz : n % m = 0
  · refine ⟨n, by simp [nextMultipleOf, hz, Nat.pos_iff_ne_zero.1 hm], Nat.le_refl n,
      Nat.dvd_of_mod_eq_zero hz, by omega⟩
  · refine ⟨n + (m - n % m), by simp [nextMultipleOf, hz, Nat.pos_iff_ne_zero.1 hm], by omega,
      ⟨n / m + 1, ?_⟩, by omega⟩
    rw [Nat.mul_add, Nat.mul_one]
    omega

/-! ## The controller and the limiter -/

/-- `ReadWindowAlignmentConfig`. -/
inductive ReadWindowAlignmentConfig
  /-- Align the offsets from `from_offset` on, relative to it, to multiples of `part_size`. -/
  | alignToPartSize (fromOffset partSize : ℕ)
  | disable

namespace ReadWindowAlignmentConfig

/-- `ReadWindowAlignmentConfig::align`; `none` where it panics. -/
def align : ReadWindowAlignmentConfig → ℕ → Option ℕ
  | .alignToPartSize fromOffset partSize, readWindowEnd =>
    if readWindowEnd > fromOffset then
      (nextMultipleOf (readWindowEnd - fromOffset) partSize).map (fromOffset + ·)
    else some readWindowEnd
  | .disable, readWindowEnd => some readWindowEnd

/-- The configurations whose `align` never panics. -/
def PartSizePos : ReadWindowAlignmentConfig → Prop
  | .alignToPartSize _ partSize => 0 < partSize
  | .disable => True

end ReadWindowAlignmentConfig

/-- `BackpressureConfig`; `request_range` is given by its two ends. -/
structure BackpressureConfig where
  initialReadWindowSize : ℕ
  minReadWindowSize : ℕ
  maxReadWindowSize : ℕ
  readWindowSizeMultiplier : ℕ
  /-- `request_range.start`. -/
  requestStart : ℕ
  /-- `request_range.end`. -/
  requestEnd : ℕ
  readWindowAlignmentConfig : ReadWindowAlignmentConfig

/-- `BackpressureController`, less its sender and its memory limiter. -/
structure BackpressureController where
  preferredReadWindowSize : ℕ
  minReadWindowSize : ℕ
  maxReadWindowSize : ℕ
  readWindowSizeMultiplier : ℕ
  readWindowEndOffset : ℕ
  nextReadOffset : ℕ
  requestEndOffset : ℕ
  readWindowAlignmentConfig : ReadWindowAlignmentConfig
  /-- `new_backpressure_controller` raises the multiplier to 2, which `scale_down` asserts. -/
  two_le_multiplier : 2 ≤ readWindowSizeMultiplier

/-- `BackpressureLimiter`, less its receiver. -/
structure BackpressureLimiter where
  readWindowEndOffset : ℕ
  requestEndOffset : ℕ

/-- `BackpressureFeedbackEvent`. -/
inductive BackpressureFeedbackEvent
  | dataRead (offset length : ℕ)
  | partQueueStall

/-- What the memory limiter, shared with the other requests, answers during one
`send_feedback`: `try_reserve`, the `k`-th time the call asks, and `available_mem`. -/
structure MemoryAnswers where
  tryReserve : ℕ → Bool
  availableMem : ℕ

/-- `new_backpressure_controller`. -/
def newBackpressureController (config : BackpressureConfig) :
    BackpressureController × BackpressureLimiter :=
  let readWindowEndOffset := config.requestStart + config.initialReadWindowSize
  (⟨config.initialReadWindowSize, config.minReadWindowSize, config.maxReadWindowSize,
      max config.readWindowSizeMultiplier 2, readWindowEndOffset, config.requestStart,
      config.requestEnd, config.readWindowAlignmentConfig, Nat.le_max_right _ _⟩,
    ⟨readWindowEndOffset, config.requestEnd⟩)

namespace BackpressureController

/-- `increment_read_window`, less the send, which `step` makes. -/
def incrementReadWindow (c : BackpressureController) (len : ℕ) : BackpressureController :=
  { c with readWindowEndOffset := c.readWindowEndOffset + len }

/-- `scale_up`, where the memory limiter has `availableMem` free. -/
def scaleUp (c : BackpressureController) (availableMem : ℕ) : BackpressureController :=
  if c.preferredReadWindowSize < c.maxReadWindowSize then
    let newReadWindowSize :=
      min (max (c.preferredReadWindowSize * c.readWindowSizeMultiplier) c.minReadWindowSize)
        c.maxReadWindowSize
    let toIncrease := newReadWindowSize - c.preferredReadWindowSize
    if availableMem ≥ toIncrease then { c with preferredReadWindowSize := newReadWindowSize }
    else c
  else c

/-- `scale_down`; its `assert!` on the multiplier is `two_le_multiplier`. -/
def scaleDown (c : BackpressureController) : BackpressureController :=
  if c.preferredReadWindowSize > c.minReadWindowSize then
    let newReadWindowSize :=
      min (max (c.preferredReadWindowSize / c.readWindowSizeMultiplier) c.minReadWindowSize)
        c.maxReadWindowSize
    { c with preferredReadWindowSize := newReadWindowSize }
  else c

theorem scaleDown_lt (c : BackpressureController)
    (h : c.minReadWindowSize < c.preferredReadWindowSize) :
    c.scaleDown.preferredReadWindowSize < c.preferredReadWindowSize := by
  have hdiv : c.preferredReadWindowSize / c.readWindowSizeMultiplier < c.preferredReadWindowSize :=
    Nat.div_lt_self (by omega) (by have := c.two_le_multiplier; omega)
  simp only [scaleDown, gt_iff_lt, h, if_true]
  omega

/-- The `while` loop of `send_feedback` on `DataRead`, with the remaining window it computes
before the loop. `tryReserve k` answers the loop's `k`-th `try_reserve`. Gives the controller
and the increment sent, if any; `none` where `align` panics. -/
def growWindow (c : BackpressureController) (remainingWindow : ℕ) (tryReserve : ℕ → Bool) :
    Option (BackpressureController × Option ℕ) :=
  if remainingWindow < c.preferredReadWindowSize / 2 ∧
      c.readWindowEndOffset < c.requestEndOffset then
    match c.readWindowAlignmentConfig.align (c.nextReadOffset + c.preferredReadWindowSize) with
    | none => none
    | some aligned =>
      let newReadWindowEndOffset := min aligned c.requestEndOffset
      if newReadWindowEndOffset ≤ c.readWindowEndOffset then some (c, none)
      else
        let toIncrease := newReadWindowEndOffset - c.readWindowEndOffset
        -- at the minimum size the increment is forced, whatever the memory
        if hmin : c.preferredReadWindowSize ≤ c.minReadWindowSize then
          some (c.incrementReadWindow toIncrease, some toIncrease)
        else if tryReserve 0 then some (c.incrementReadWindow toIncrease, some toIncrease)
        else
          have := c.scaleDown_lt (Nat.lt_of_not_le hmin)
          c.scaleDown.growWindow remainingWindow fun k => tryReserve (k + 1)
  else some (c, none)
termination_by c.preferredReadWindowSize

/-- `send_feedback`, with the memory limiter's answers: the controller and the increment sent. -/
def sendFeedback (c : BackpressureController) (event : BackpressureFeedbackEvent)
    (mem : MemoryAnswers) : Option (BackpressureController × Option ℕ) :=
  match event with
  | .dataRead offset length =>
    let c := { c with nextReadOffset := offset + length }
    c.growWindow (c.readWindowEndOffset - c.nextReadOffset) mem.tryReserve
  | .partQueueStall => some (c.scaleUp mem.availableMem, none)

end BackpressureController

/-! ## What one call of the controller does -/

namespace ReadWindowAlignmentConfig

/-- `align` never moves an end back; past `from_offset`, with a positive part size, it rounds the
end up to the next part boundary from `from_offset`, and below it keeps the end. -/
structure Rounds (a : ReadWindowAlignmentConfig) : Prop where
  le_align : ∀ e e', a.align e = some e' → e ≤ e'
  align_of_le : ∀ fromOffset partSize e, a = .alignToPartSize fromOffset partSize →
    e ≤ fromOffset → a.align e = some e
  align_of_lt : ∀ fromOffset partSize e, a = .alignToPartSize fromOffset partSize →
    0 < partSize → fromOffset < e → ∃ r, a.align e = some (fromOffset + r) ∧
      e - fromOffset ≤ r ∧ partSize ∣ r ∧ r < e - fromOffset + partSize
  align_disable : a = .disable → ∀ e, a.align e = some e

theorem rounds (a : ReadWindowAlignmentConfig) : a.Rounds where
  le_align e e' h := by
    cases a with
    | alignToPartSize fromOffset partSize =>
      simp only [align, gt_iff_lt] at h
      split at h
      · obtain ⟨r, hr, rfl⟩ := Option.map_eq_some_iff.1 h
        have := le_of_nextMultipleOf_eq_some hr
        omega
      · cases h
        exact Nat.le_refl e
    | disable =>
      cases h
      exact Nat.le_refl e
  align_of_le fromOffset partSize e ha he := by
    subst ha
    simp [align, Nat.not_lt.2 he]
  align_of_lt fromOffset partSize e ha hpos he := by
    subst ha
    obtain ⟨r, hr, hle, hdvd, hlt⟩ := nextMultipleOf_spec (e - fromOffset) hpos
    exact ⟨r, by simp [align, he, hr], hle, hdvd, hlt⟩
  align_disable ha e := by
    subst ha
    rfl

theorem align_isSome {a : ReadWindowAlignmentConfig} (ha : a.PartSizePos) (e : ℕ) :
    ∃ e', a.align e = some e' := by
  cases a with
  | alignToPartSize fromOffset partSize =>
    by_cases he : fromOffset < e
    · obtain ⟨r, hr, -⟩ := (rounds _).align_of_lt fromOffset partSize e rfl ha he
      exact ⟨fromOffset + r, hr⟩
    · exact ⟨e, (rounds _).align_of_le fromOffset partSize e rfl (Nat.not_lt.1 he)⟩
  | disable => exact ⟨e, rfl⟩

end ReadWindowAlignmentConfig

namespace BackpressureController

theorem scaleUp_spec (c : BackpressureController) (availableMem : ℕ) :
    ∃ p, c.scaleUp availableMem = { c with preferredReadWindowSize := p } ∧
      (p = c.preferredReadWindowSize ∨
        p = min (max (c.preferredReadWindowSize * c.readWindowSizeMultiplier)
          c.minReadWindowSize) c.maxReadWindowSize) := by
  unfold scaleUp
  dsimp only
  split_ifs
  · exact ⟨_, rfl, .inr rfl⟩
  · exact ⟨_, rfl, .inl rfl⟩
  · exact ⟨_, rfl, .inl rfl⟩

theorem scaleDown_spec (c : BackpressureController) :
    ∃ p, c.scaleDown = { c with preferredReadWindowSize := p } ∧
      (p = c.preferredReadWindowSize ∨
        p = min (max (c.preferredReadWindowSize / c.readWindowSizeMultiplier)
          c.minReadWindowSize) c.maxReadWindowSize) := by
  unfold scaleDown
  dsimp only
  split_ifs
  · exact ⟨_, rfl, .inr rfl⟩
  · exact ⟨_, rfl, .inl rfl⟩

/-- What the loop of `send_feedback` leaves: `c` with a new preferred size, which `scale_down` set
if it is not `c`'s, and its window end moved by the increment sent, to at most the request end;
and the loop's test failed, or the window reaches the request end or the preferred size past the
next read offset. -/
structure Grown (c : BackpressureController) (remainingWindow : ℕ) (c' : BackpressureController)
    (increment : Option ℕ) : Prop where
  eq : c' =
    { c with
      preferredReadWindowSize := c'.preferredReadWindowSize
      readWindowEndOffset := c.readWindowEndOffset + increment.getD 0 }
  preferred : c'.preferredReadWindowSize = c.preferredReadWindowSize ∨
    ∃ x, c'.preferredReadWindowSize = min (max x c.minReadWindowSize) c.maxReadWindowSize
  le_requestEnd : ∀ d, increment = some d → c.readWindowEndOffset + d ≤ c.requestEndOffset
  exit : c'.preferredReadWindowSize / 2 ≤ remainingWindow ∨
    c.requestEndOffset ≤ c'.readWindowEndOffset ∨
    min (c.nextReadOffset + c'.preferredReadWindowSize) c.requestEndOffset ≤
      c'.readWindowEndOffset

theorem Grown.self {c : BackpressureController} {remainingWindow : ℕ}
    (h : c.preferredReadWindowSize / 2 ≤ remainingWindow ∨
      c.requestEndOffset ≤ c.readWindowEndOffset ∨
      min (c.nextReadOffset + c.preferredReadWindowSize) c.requestEndOffset ≤
        c.readWindowEndOffset) :
    Grown c remainingWindow c none :=
  ⟨rfl, .inl rfl, (fun _ hd => by cases hd), h⟩

theorem Grown.increment {c : BackpressureController} {remainingWindow aligned : ℕ}
    (halign : c.readWindowAlignmentConfig.align (c.nextReadOffset + c.preferredReadWindowSize) =
      some aligned)
    (hlt : c.readWindowEndOffset < min aligned c.requestEndOffset) :
    Grown c remainingWindow (c.incrementReadWindow (min aligned c.requestEndOffset -
      c.readWindowEndOffset)) (some (min aligned c.requestEndOffset - c.readWindowEndOffset)) := by
  have hle := c.readWindowAlignmentConfig.rounds.le_align _ _ halign
  refine ⟨rfl, .inl rfl, fun d hd => ?_, .inr (.inr ?_)⟩
  · cases hd
    omega
  · simp only [incrementReadWindow]
    omega

/-- The loop goes on from `scale_down`'s controller, which differs from `c` only in its
preferred size. -/
theorem Grown.of_scaleDown {c c' : BackpressureController} {remainingWindow : ℕ}
    {increment : Option ℕ} (h : Grown c.scaleDown remainingWindow c' increment) :
    Grown c remainingWindow c' increment := by
  obtain ⟨p, hp, hpc⟩ := c.scaleDown_spec
  rw [hp] at h
  refine ⟨h.eq, ?_, h.le_requestEnd, h.exit⟩
  rcases h.preferred with heq | hclamp
  · rcases hpc with rfl | rfl
    · exact .inl heq
    · exact .inr ⟨_, heq⟩
  · exact .inr hclamp

theorem growWindow_grown {c : BackpressureController} {remainingWindow : ℕ}
    {tryReserve : ℕ → Bool} {c' : BackpressureController} {increment : Option ℕ}
    (h : c.growWindow remainingWindow tryReserve = some (c', increment)) :
    Grown c remainingWindow c' increment := by
  fun_induction growWindow c remainingWindow tryReserve generalizing c' increment with
  | case1 => cases h
  | case2 c _ _ aligned halign =>
    rename_i hle
    simp only [Option.some.injEq, Prod.mk.injEq] at h
    obtain ⟨rfl, rfl⟩ := h
    have hle : min aligned c.requestEndOffset ≤ c.readWindowEndOffset := hle
    have := c.readWindowAlignmentConfig.rounds.le_align _ _ halign
    exact Grown.self (.inr (.inr (by omega)))
  | case3 c _ _ aligned halign =>
    rename_i hgt _ _
    simp only [Option.some.injEq, Prod.mk.injEq] at h
    obtain ⟨rfl, rfl⟩ := h
    exact Grown.increment halign (Nat.lt_of_not_le hgt)
  | case4 c _ _ aligned halign =>
    rename_i hgt _ _ _
    simp only [Option.some.injEq, Prod.mk.injEq] at h
    obtain ⟨rfl, rfl⟩ := h
    exact Grown.increment halign (Nat.lt_of_not_le hgt)
  | case5 =>
    rename_i _ ih
    exact (ih h).of_scaleDown
  | case6 c _ hcond =>
    simp only [Option.some.injEq, Prod.mk.injEq] at h
    obtain ⟨rfl, rfl⟩ := h
    exact Grown.self (by omega)

end BackpressureController

/-! ## What the controller keeps -/

namespace BackpressureController

theorem growWindow_isSome {c : BackpressureController} {remainingWindow : ℕ}
    {tryReserve : ℕ → Bool} (ha : c.readWindowAlignmentConfig.PartSizePos) :
    ∃ r, c.growWindow remainingWindow tryReserve = some r := by
  fun_induction growWindow c remainingWindow tryReserve with
  | case1 c =>
    rename_i hnone
    obtain ⟨e', he'⟩ := ReadWindowAlignmentConfig.align_isSome ha
      (c.nextReadOffset + c.preferredReadWindowSize)
    rw [hnone] at he'
    cases he'
  | case5 c =>
    rename_i _ ih
    obtain ⟨p, hp, -⟩ := c.scaleDown_spec
    exact ih (by rw [hp]; exact ha)
  | _ => exact ⟨_, rfl⟩

/-- What `send_feedback` keeps of the controller, for the configuration it was made from: its
bounds and request end; a window end within the request, or its initial end; a preferred size
that is the initial one or a size clamped to the bounds; and, where no size is below 2, a window
that ends after the next read offset. -/
structure Inv (config : BackpressureConfig) (c : BackpressureController) : Prop where
  requestEnd_eq : c.requestEndOffset = config.requestEnd
  minReadWindowSize_eq : c.minReadWindowSize = config.minReadWindowSize
  maxReadWindowSize_eq : c.maxReadWindowSize = config.maxReadWindowSize
  alignment_eq : c.readWindowAlignmentConfig = config.readWindowAlignmentConfig
  window_le : c.readWindowEndOffset ≤
    max (config.requestStart + config.initialReadWindowSize) config.requestEnd
  preferred : c.preferredReadWindowSize = config.initialReadWindowSize ∨
    ∃ x, c.preferredReadWindowSize =
      min (max x config.minReadWindowSize) config.maxReadWindowSize
  next_le : 2 ≤ config.initialReadWindowSize → 2 ≤ config.minReadWindowSize →
    2 ≤ config.maxReadWindowSize → c.nextReadOffset ≤ c.readWindowEndOffset

theorem inv_new (config : BackpressureConfig) : (newBackpressureController config).1.Inv config where
  requestEnd_eq := rfl
  minReadWindowSize_eq := rfl
  maxReadWindowSize_eq := rfl
  alignment_eq := rfl
  window_le := Nat.le_max_left _ _
  preferred := .inl rfl
  next_le _ _ _ := Nat.le_add_right _ _

theorem Inv.two_le_preferred {config : BackpressureConfig} {c : BackpressureController}
    (hc : c.Inv config) (hinit : 2 ≤ config.initialReadWindowSize)
    (hmin : 2 ≤ config.minReadWindowSize) (hmax : 2 ≤ config.maxReadWindowSize) :
    2 ≤ c.preferredReadWindowSize := by
  rcases hc.preferred with h | ⟨x, h⟩ <;> omega

/-- The loop of `send_feedback` on a read ending by the request end keeps the invariant, and moves
the window end by the increment sent. -/
theorem Inv.grown {config : BackpressureConfig} {c c' : BackpressureController}
    {offset length : ℕ} {increment : Option ℕ} (hc : c.Inv config)
    (hin : offset + length ≤ c.requestEndOffset)
    (h : Grown { c with nextReadOffset := offset + length }
      (c.readWindowEndOffset - (offset + length)) c' increment) :
    c'.Inv config ∧ c'.readWindowEndOffset = c.readWindowEndOffset + increment.getD 0 := by
  have hinc := h.le_requestEnd
  have hexit := h.exit
  have hpref := h.preferred
  rw [h.eq] at hexit hpref ⊢
  dsimp only at hinc hexit hpref ⊢
  have hwin := hc.window_le
  have hend := hc.requestEnd_eq
  refine ⟨⟨hend, hc.minReadWindowSize_eq, hc.maxReadWindowSize_eq, hc.alignment_eq, ?_, ?_, ?_⟩,
    rfl⟩
  · -- an increment stops at the request end
    cases increment with
    | none => simpa using hwin
    | some d =>
      have := hinc d rfl
      simp only [Option.getD_some]
      omega
  · rcases hpref with hp | hclamp
    · rw [hp]
      exact hc.preferred
    · rw [← hc.minReadWindowSize_eq, ← hc.maxReadWindowSize_eq]
      exact .inr hclamp
  · intro hinit hmin hmax
    dsimp only
    -- the loop stops with a preferred size of at least 2, so its test failed with the window past
    -- the read, or it reached the read's end
    have h2 : 2 ≤ c'.preferredReadWindowSize := by
      rcases hpref with hp | ⟨x, hx⟩
      · rw [hp]
        exact hc.two_le_preferred hinit hmin hmax
      · rw [hx, hc.minReadWindowSize_eq, hc.maxReadWindowSize_eq]
        omega
    clear hpref
    omega

theorem Inv.sendFeedback {config : BackpressureConfig} {c c' : BackpressureController}
    {event : BackpressureFeedbackEvent} {mem : MemoryAnswers} {increment : Option ℕ}
    (hc : c.Inv config)
    (hin : ∀ offset length, event = .dataRead offset length →
      offset + length ≤ c.requestEndOffset)
    (h : c.sendFeedback event mem = some (c', increment)) :
    c'.Inv config ∧ c'.readWindowEndOffset = c.readWindowEndOffset + increment.getD 0 := by
  cases event with
  | dataRead offset length =>
    exact hc.grown (hin offset length rfl) (growWindow_grown h)
  | partQueueStall =>
    simp only [BackpressureController.sendFeedback, Option.some.injEq, Prod.mk.injEq] at h
    obtain ⟨rfl, rfl⟩ := h
    obtain ⟨p, hp, hpc⟩ := c.scaleUp_spec mem.availableMem
    rw [hp]
    refine ⟨⟨hc.requestEnd_eq, hc.minReadWindowSize_eq, hc.maxReadWindowSize_eq,
      hc.alignment_eq, hc.window_le, ?_, hc.next_le⟩, rfl⟩
    rcases hpc with rfl | rfl
    · exact hc.preferred
    · rw [hc.minReadWindowSize_eq, hc.maxReadWindowSize_eq]
      exact .inr ⟨_, rfl⟩

end BackpressureController

/-- `ReadWindowIncrementQueue::try_recv_drain`, which takes every increment in the channel:
their sum, if positive. -/
def tryRecvDrain (queue : List ℕ) : Option ℕ :=
  if queue.sum > 0 then some queue.sum else none

/-- `ReadWindowIncrementQueue::recv_drain`, which takes every increment in the channel once there
is one: `none` while it blocks. -/
def recvDrain (queue : List ℕ) : Option ℕ :=
  if queue = [] then none else some queue.sum

/-- Where a call of `wait_for_read_window_increment` stands. -/
inductive Wait
  /-- Returned `Ok(new_offset)`. -/
  | ready (newOffset : Option ℕ)
  /-- Blocked in the loop on an empty channel. -/
  | blocked

namespace BackpressureLimiter

/-- The test of the loop of `wait_for_read_window_increment`: the call returns the window end once
it fails, and otherwise blocks on the channel. -/
def waitLoop (l : BackpressureLimiter) (offset : ℕ) : Wait :=
  if l.readWindowEndOffset ≤ offset ∧ l.readWindowEndOffset < l.requestEndOffset then .blocked
  else .ready (some l.readWindowEndOffset)

/-- `wait_for_read_window_increment`, up to where it returns or blocks: the answer, the limiter
and the channel. -/
def waitForReadWindowIncrement (l : BackpressureLimiter) (queue : List ℕ) (offset : ℕ) :
    Wait × BackpressureLimiter × List ℕ :=
  if l.readWindowEndOffset > offset then
    match tryRecvDrain queue with
    | some incrementAmount =>
      let l := { l with readWindowEndOffset := l.readWindowEndOffset + incrementAmount }
      (.ready (some l.readWindowEndOffset), l, [])
    | none => (.ready none, l, [])
  else (l.waitLoop offset, l, queue)

/-- A call blocked on the channel, woken: `recv_drain` takes what was sent, then the loop tests
again. With nothing sent it stays blocked. -/
def resume (l : BackpressureLimiter) (queue : List ℕ) (offset : ℕ) :
    Wait × BackpressureLimiter × List ℕ :=
  match recvDrain queue with
  | some len =>
    let l := { l with readWindowEndOffset := l.readWindowEndOffset + len }
    (l.waitLoop offset, l, [])
  | none => (.blocked, l, queue)


theorem tryRecvDrain_eq_some {queue : List ℕ} {n : ℕ} (h : tryRecvDrain queue = some n) :
    n = queue.sum := by
  unfold tryRecvDrain at h
  split_ifs at h
  cases h
  rfl

theorem sum_eq_zero_of_tryRecvDrain {queue : List ℕ} (h : tryRecvDrain queue = none) :
    queue.sum = 0 := by
  unfold tryRecvDrain at h
  split_ifs at h with hpos
  omega

theorem recvDrain_eq_some {queue : List ℕ} {n : ℕ} (h : recvDrain queue = some n) :
    n = queue.sum := by
  unfold recvDrain at h
  split_ifs at h
  cases h
  rfl

theorem waitLoop_ready {l : BackpressureLimiter} {offset : ℕ} {v : Option ℕ}
    (h : l.waitLoop offset = .ready v) :
    (offset < l.readWindowEndOffset ∨ l.requestEndOffset ≤ l.readWindowEndOffset) ∧
      v = some l.readWindowEndOffset := by
  unfold waitLoop at h
  split_ifs at h with hcond
  cases h
  exact ⟨by omega, rfl⟩

/-- A call returns or blocks either having drained the channel into the window end, or leaving
both as they were. -/
theorem waitForReadWindowIncrement_spec (l : BackpressureLimiter) (queue : List ℕ)
    (offset : ℕ) : ∃ w,
      l.waitForReadWindowIncrement queue offset =
          (w, { l with readWindowEndOffset := l.readWindowEndOffset + queue.sum }, []) ∨
        l.waitForReadWindowIncrement queue offset = (w, l, queue) := by
  unfold waitForReadWindowIncrement
  split_ifs
  · split
    · rename_i n hn
      rw [tryRecvDrain_eq_some hn]
      exact ⟨_, .inl rfl⟩
    · rename_i hn
      have hsum := sum_eq_zero_of_tryRecvDrain hn
      exact ⟨.ready none, .inl (by rw [hsum]; rfl)⟩
  · exact ⟨_, .inr rfl⟩

theorem resume_spec (l : BackpressureLimiter) (queue : List ℕ) (offset : ℕ) : ∃ w,
    l.resume queue offset =
        (w, { l with readWindowEndOffset := l.readWindowEndOffset + queue.sum }, []) ∨
      l.resume queue offset = (w, l, queue) := by
  unfold resume
  split
  · rename_i n hn
    rw [recvDrain_eq_some hn]
    exact ⟨_, .inl rfl⟩
  · exact ⟨_, .inr rfl⟩

/-- **A call returns only past its offset.** `wait_for_read_window_increment` returns `Ok` only
once the window ends after the offset or at the request end, and a new offset it returns is the
window end. -/
theorem waitForReadWindowIncrement_ready {l l' : BackpressureLimiter} {queue queue' : List ℕ}
    {offset : ℕ} {v : Option ℕ}
    (h : l.waitForReadWindowIncrement queue offset = (.ready v, l', queue')) :
    (offset < l'.readWindowEndOffset ∨ l'.requestEndOffset ≤ l'.readWindowEndOffset) ∧
      ∀ w, v = some w → w = l'.readWindowEndOffset := by
  unfold waitForReadWindowIncrement at h
  split_ifs at h with hgt
  · split at h
    · simp only [Prod.mk.injEq, Wait.ready.injEq] at h
      obtain ⟨rfl, rfl, -⟩ := h
      refine ⟨.inl ?_, fun w hw => by cases hw; rfl⟩
      simp only
      omega
    · simp only [Prod.mk.injEq, Wait.ready.injEq] at h
      obtain ⟨rfl, rfl, -⟩ := h
      exact ⟨.inl hgt, fun w hw => by cases hw⟩
  · simp only [Prod.mk.injEq] at h
    obtain ⟨hw, rfl, -⟩ := h
    obtain ⟨hend, rfl⟩ := waitLoop_ready hw
    exact ⟨hend, fun w hw => by cases hw; rfl⟩

/-- The same for a blocked call that a wake-up lets return. -/
theorem resume_ready {l l' : BackpressureLimiter} {queue queue' : List ℕ} {offset : ℕ}
    {v : Option ℕ} (h : l.resume queue offset = (.ready v, l', queue')) :
    (offset < l'.readWindowEndOffset ∨ l'.requestEndOffset ≤ l'.readWindowEndOffset) ∧
      ∀ w, v = some w → w = l'.readWindowEndOffset := by
  unfold resume at h
  split at h
  · simp only [Prod.mk.injEq] at h
    obtain ⟨hw, rfl, -⟩ := h
    obtain ⟨hend, rfl⟩ := waitLoop_ready hw
    exact ⟨hend, fun w hw => by cases hw; rfl⟩
  · simp at h

end BackpressureLimiter

/-! ## The system -/

/-- The controller, the limiter and the channel between them. -/
structure Backpressure where
  controller : BackpressureController
  limiter : BackpressureLimiter
  /-- The increments sent and not yet received, oldest first. -/
  queue : List ℕ
  /-- The offset a blocked `wait_for_read_window_increment` waits for. -/
  waiting : Option ℕ

namespace Backpressure

/-- The pair `new_backpressure_controller` makes, with an empty channel. -/
def init (config : BackpressureConfig) : Option Backpressure :=
  some ⟨(newBackpressureController config).1, (newBackpressureController config).2, [], none⟩

/-- The events of the system. -/
inductive Event
  /-- The consumer's `send_feedback`. -/
  | sendFeedback (event : BackpressureFeedbackEvent) (mem : MemoryAnswers)
  /-- The producer calls `wait_for_read_window_increment`. -/
  | waitForReadWindowIncrement (offset : ℕ)
  /-- The producer's blocked call is woken by the channel. -/
  | wake

/-- The state a call of the producer leaves: its limiter and channel, and the offset it waits
for if it blocked. -/
def afterWait (s : Backpressure) (offset : ℕ) : Wait × BackpressureLimiter × List ℕ → Backpressure
  | (.ready _, l, queue) => { s with limiter := l, queue := queue, waiting := none }
  | (.blocked, l, queue) => { s with limiter := l, queue := queue, waiting := some offset }

/-- One event; `none` once `send_feedback` has panicked. The producer is one task: it makes no
call while one is blocked, and a wake-up finds a blocked call or does nothing. -/
def step : Option Backpressure → Event → Option Backpressure
  | none, _ => none
  | some s, .sendFeedback event mem =>
    (s.controller.sendFeedback event mem).map fun r =>
      { s with controller := r.1, queue := s.queue ++ r.2.toList }
  | some s, .waitForReadWindowIncrement offset =>
    match s.waiting with
    | some _ => some s
    | none => some (s.afterWait offset (s.limiter.waitForReadWindowIncrement s.queue offset))
  | some s, .wake =>
    match s.waiting with
    | some offset => some (s.afterWait offset (s.limiter.resume s.queue offset))
    | none => some s

/-- The consumer reads within the request: every `DataRead` ends by the request end. -/
def InRequest : Option Backpressure → Event → Prop
  | some s, .sendFeedback (.dataRead offset length) _ =>
    offset + length ≤ s.controller.requestEndOffset
  | _, _ => True

/-! ## Runs -/

/-- What every event keeps: the controller's invariant, and the limiter's window end and the
increments in the channel adding up to the controller's window end. -/
structure Inv (config : BackpressureConfig) (s : Backpressure) : Prop where
  controller : s.controller.Inv config
  mirror : s.limiter.readWindowEndOffset + s.queue.sum = s.controller.readWindowEndOffset
  limiter_requestEnd : s.limiter.requestEndOffset = config.requestEnd

theorem inv_init (config : BackpressureConfig) : ∀ s, init config = some s → s.Inv config := by
  rintro s ⟨⟩
  exact ⟨BackpressureController.inv_new config, Nat.add_zero _, rfl⟩

@[simp] theorem afterWait_controller (s : Backpressure) (offset : ℕ)
    (r : Wait × BackpressureLimiter × List ℕ) : (s.afterWait offset r).controller = s.controller := by
  obtain ⟨_ | _, _, _⟩ := r <;> rfl

@[simp] theorem afterWait_limiter (s : Backpressure) (offset : ℕ)
    (r : Wait × BackpressureLimiter × List ℕ) : (s.afterWait offset r).limiter = r.2.1 := by
  obtain ⟨_ | _, _, _⟩ := r <;> rfl

@[simp] theorem afterWait_queue (s : Backpressure) (offset : ℕ)
    (r : Wait × BackpressureLimiter × List ℕ) : (s.afterWait offset r).queue = r.2.2 := by
  obtain ⟨_ | _, _, _⟩ := r <;> rfl

/-- The producer's call and its wake-up drain the channel into the limiter's window end, or
leave both. -/
theorem Inv.afterWait {config : BackpressureConfig} {s : Backpressure} (hs : s.Inv config)
    (offset : ℕ) {r : Wait × BackpressureLimiter × List ℕ}
    (hr : ∃ w, r = (w, { s.limiter with
        readWindowEndOffset := s.limiter.readWindowEndOffset + s.queue.sum }, []) ∨
      r = (w, s.limiter, s.queue)) :
    (s.afterWait offset r).Inv config := by
  have hmirror := hs.mirror
  have hc : (s.afterWait offset r).controller.Inv config := by simpa using hs.controller
  obtain ⟨w, rfl | rfl⟩ := hr
  · refine ⟨hc, ?_, by simpa using hs.limiter_requestEnd⟩
    simp only [afterWait_limiter, afterWait_queue, afterWait_controller, List.sum_nil]
    omega
  · exact ⟨hc, by simpa using hmirror, by simpa using hs.limiter_requestEnd⟩

/-- `send_feedback` keeps the invariant; the increment it sends joins the channel. -/
theorem Inv.sendFeedback {config : BackpressureConfig} {s : Backpressure}
    {event : BackpressureFeedbackEvent} {mem : MemoryAnswers} {c' : BackpressureController}
    {increment : Option ℕ} (hs : s.Inv config)
    (hin : ∀ offset length, event = .dataRead offset length →
      offset + length ≤ s.controller.requestEndOffset)
    (h : s.controller.sendFeedback event mem = some (c', increment)) :
    ({ s with controller := c', queue := s.queue ++ increment.toList } : Backpressure).Inv
      config := by
  obtain ⟨hc', hwin⟩ := hs.controller.sendFeedback hin h
  refine ⟨hc', ?_, hs.limiter_requestEnd⟩
  have hmirror := hs.mirror
  have hsum : (s.queue ++ increment.toList).sum = s.queue.sum + increment.getD 0 := by
    cases increment <;> simp
  simp only [hsum, hwin]
  omega

/-- **One event keeps the invariant.** -/
theorem inv_step {config : BackpressureConfig} {o : Option Backpressure} {e : Event}
    (ho : ∀ s, o = some s → s.Inv config) (hok : InRequest o e) :
    ∀ s', step o e = some s' → s'.Inv config := by
  intro s' hstep
  cases o with
  | none => cases hstep
  | some s =>
    have hs := ho s rfl
    cases e with
    | sendFeedback event mem =>
      obtain ⟨⟨c', increment⟩, hfb, rfl⟩ := Option.map_eq_some_iff.1 hstep
      refine hs.sendFeedback (fun offset length hev => ?_) hfb
      subst hev
      exact hok
    | waitForReadWindowIncrement offset =>
      simp only [step] at hstep
      split at hstep
      · cases hstep
        exact hs
      · cases hstep
        exact hs.afterWait offset (s.limiter.waitForReadWindowIncrement_spec s.queue offset)
    | wake =>
      simp only [step] at hstep
      split at hstep
      · cases hstep
        exact hs.afterWait _ (s.limiter.resume_spec s.queue _)
      · cases hstep
        exact hs

/-- **Every run keeps the invariant**, along reads within the request. -/
theorem inv_run (config : BackpressureConfig) (events : List Event)
    (hok : Allowed step InRequest (init config) events) :
    ∀ s, run step (init config) events = some s → s.Inv config :=
  run_invariant_of_allowed (P := fun o => ∀ s, o = some s → s.Inv config)
    (fun _ _ ho hok => inv_step ho hok) events (inv_init config) hok

/-- With an alignment that cannot panic, no event panics. -/
theorem step_isSome {config : BackpressureConfig} {s : Backpressure} (hs : s.Inv config)
    (ha : config.readWindowAlignmentConfig.PartSizePos) (e : Event) :
    ∃ s', step (some s) e = some s' := by
  cases e with
  | sendFeedback event mem =>
    cases event with
    | dataRead offset length =>
      have ha' : ({ s.controller with nextReadOffset := offset + length } :
          BackpressureController).readWindowAlignmentConfig.PartSizePos := by
        show s.controller.readWindowAlignmentConfig.PartSizePos
        rw [hs.controller.alignment_eq]
        exact ha
      obtain ⟨r, hr⟩ : ∃ r, ({ s.controller with nextReadOffset := offset + length } :
          BackpressureController).growWindow (s.controller.readWindowEndOffset - (offset + length))
            mem.tryReserve = some r :=
        BackpressureController.growWindow_isSome ha'
      exact ⟨{ s with controller := r.1, queue := s.queue ++ r.2.toList },
        by simp only [step, BackpressureController.sendFeedback, hr, Option.map_some]⟩
    | partQueueStall => exact ⟨_, rfl⟩
  | waitForReadWindowIncrement offset =>
    simp only [step]
    split <;> exact ⟨_, rfl⟩
  | wake =>
    simp only [step]
    split <;> exact ⟨_, rfl⟩

theorem run_isSome (config : BackpressureConfig) (events : List Event)
    (ha : config.readWindowAlignmentConfig.PartSizePos)
    (hok : Allowed step InRequest (init config) events) :
    ∃ s, run step (init config) events = some s ∧ s.Inv config :=
  run_invariant_of_allowed (P := fun o => ∃ s : Backpressure, o = some s ∧ s.Inv config)
    (fun _ _ ho hok => by
      obtain ⟨s, rfl, hs⟩ := ho
      obtain ⟨s', hs'⟩ := step_isSome hs ha _
      exact ⟨s', hs', inv_step (fun _ h => Option.some.inj h ▸ hs) hok s' hs'⟩)
    events ⟨_, rfl, inv_init config _ rfl⟩ hok

/-- Draining or not, the producer's calls keep the request end. -/
theorem requestEnd_eq_of_drain {l : BackpressureLimiter} {queue : List ℕ}
    {r : Wait × BackpressureLimiter × List ℕ}
    (hr : ∃ w, r = (w, { l with readWindowEndOffset := l.readWindowEndOffset + queue.sum }, []) ∨
      r = (w, l, queue)) :
    r.2.1.requestEndOffset = l.requestEndOffset := by
  obtain ⟨w, rfl | rfl⟩ := hr <;> rfl

/-- What the pair guarantees after every event: the limiter's window end never passes the
controller's and equals it once the channel is drained; the window ends within the request, or at
its initial end; where no size is below 2, after the next read offset; between the bounds, when
they are ordered, the preferred size is its initial one or within them; and a call of the
producer returns only once the window ends after its offset or at the request end. -/
structure Guarantees (config : BackpressureConfig) (s : Backpressure) : Prop where
  limiter_le : s.limiter.readWindowEndOffset ≤ s.controller.readWindowEndOffset
  limiter_eq_of_drained : s.queue = [] →
    s.limiter.readWindowEndOffset = s.controller.readWindowEndOffset
  window_le : s.controller.readWindowEndOffset ≤
    max (config.requestStart + config.initialReadWindowSize) config.requestEnd
  next_le : 2 ≤ config.initialReadWindowSize → 2 ≤ config.minReadWindowSize →
    2 ≤ config.maxReadWindowSize → s.controller.nextReadOffset ≤ s.controller.readWindowEndOffset
  preferred_mem : config.minReadWindowSize ≤ config.maxReadWindowSize →
    s.controller.preferredReadWindowSize = config.initialReadWindowSize ∨
      config.minReadWindowSize ≤ s.controller.preferredReadWindowSize ∧
        s.controller.preferredReadWindowSize ≤ config.maxReadWindowSize
  wait_ready : ∀ offset v l queue,
    s.limiter.waitForReadWindowIncrement s.queue offset = (.ready v, l, queue) →
      (offset < l.readWindowEndOffset ∨ config.requestEnd ≤ l.readWindowEndOffset) ∧
        ∀ w, v = some w → w = l.readWindowEndOffset
  resume_ready : ∀ offset v l queue, s.limiter.resume s.queue offset = (.ready v, l, queue) →
    (offset < l.readWindowEndOffset ∨ config.requestEnd ≤ l.readWindowEndOffset) ∧
      ∀ w, v = some w → w = l.readWindowEndOffset

theorem Inv.guarantees {config : BackpressureConfig} {s : Backpressure} (hs : s.Inv config) :
    s.Guarantees config where
  limiter_le := by
    have := hs.mirror
    omega
  limiter_eq_of_drained hq := by
    have := hs.mirror
    rw [hq, List.sum_nil] at this
    omega
  window_le := hs.controller.window_le
  next_le := hs.controller.next_le
  preferred_mem hle := by
    rcases hs.controller.preferred with h | ⟨x, h⟩
    · exact .inl h
    · right
      omega
  wait_ready offset v l queue h := by
    have hend := requestEnd_eq_of_drain (s.limiter.waitForReadWindowIncrement_spec s.queue offset)
    rw [h, hs.limiter_requestEnd] at hend
    rw [← hend]
    exact BackpressureLimiter.waitForReadWindowIncrement_ready h
  resume_ready offset v l queue h := by
    have hend := requestEnd_eq_of_drain (s.limiter.resume_spec s.queue offset)
    rw [h, hs.limiter_requestEnd] at hend
    rw [← hend]
    exact BackpressureLimiter.resume_ready h

theorem backpressure_window_bounds (config : BackpressureConfig) (events : List Event)
    (hok : Allowed step InRequest (init config) events) :
    config.readWindowAlignmentConfig.Rounds ∧
      (config.readWindowAlignmentConfig.PartSizePos → run step (init config) events ≠ none) ∧
      ∀ s, run step (init config) events = some s → s.Guarantees config := by
  refine ⟨config.readWindowAlignmentConfig.rounds, fun ha hnone => ?_, fun s hs => ?_⟩
  · obtain ⟨s, hs, -⟩ := run_isSome config events ha hok
    rw [hs] at hnone
    cases hnone
  · exact (inv_run config events hok s hs).guarantees

theorem backpressure_window_bounds_one_read :
    Allowed step InRequest (init ⟨8, 4, 32, 2, 0, 100, .alignToPartSize 8 4⟩)
        [.sendFeedback (.dataRead 0 6) ⟨fun _ => true, 0⟩] ∧
      (ReadWindowAlignmentConfig.alignToPartSize 8 4).Rounds ∧
      ((ReadWindowAlignmentConfig.alignToPartSize 8 4).PartSizePos →
        run step (init ⟨8, 4, 32, 2, 0, 100, .alignToPartSize 8 4⟩)
          [.sendFeedback (.dataRead 0 6) ⟨fun _ => true, 0⟩] ≠ none) ∧
      ∀ s, run step (init ⟨8, 4, 32, 2, 0, 100, .alignToPartSize 8 4⟩)
          [.sendFeedback (.dataRead 0 6) ⟨fun _ => true, 0⟩] = some s →
        s.Guarantees ⟨8, 4, 32, 2, 0, 100, .alignToPartSize 8 4⟩ :=
  have hok : Allowed step InRequest (init ⟨8, 4, 32, 2, 0, 100, .alignToPartSize 8 4⟩)
      [.sendFeedback (.dataRead 0 6) ⟨fun _ => true, 0⟩] :=
    ⟨show 0 + 6 ≤ 100 by decide, trivial⟩
  ⟨hok, backpressure_window_bounds _ _ hok⟩

/-- Where the hypotheses above fail. With a preferred size of 1, `preferred / 2` is 0, so a read
past the window end grows nothing and the window ends before the next read offset. A scale-up
that does not apply leaves an initial size above the maximum, though the bounds are ordered. And
`align` panics on a part size of zero. -/
theorem backpressure_window_counterexample :
    (∃ s, run step (init ⟨1, 1, 1, 2, 0, 10, .disable⟩)
        [.sendFeedback (.dataRead 0 5) ⟨fun _ => true, 0⟩] = some s ∧
      s.controller.readWindowEndOffset < s.controller.nextReadOffset) ∧
    (∃ s, run step (init ⟨3, 1, 2, 2, 0, 10, .disable⟩)
        [.sendFeedback .partQueueStall ⟨fun _ => true, 0⟩] = some s ∧
      2 < s.controller.preferredReadWindowSize) ∧
    (ReadWindowAlignmentConfig.alignToPartSize 0 0).align 1 = none := by
  refine ⟨?_, ⟨_, rfl, by decide⟩, rfl⟩
  simp [run, step, init, newBackpressureController, BackpressureController.sendFeedback,
    BackpressureController.growWindow]

end Backpressure

end MountpointS3.Prefetch
