import MountpointS3.Prefetch.Part
import MountpointS3.Foundations.Run

/-!
# The backward seek window

`prefetch/seek_window.rs`: the parts a prefetch stream has read most recently, up to a
maximum size, so that a short backward seek is served from them. `push` adds a part at the back
and drops parts from the front until it fits; `read_back` takes bytes off the back.

The window's loops are recursions over its parts: `pushLoop` pops from the front,
`readBackLoop` from the back (it walks the parts reversed). Where an `expect` of the source
would panic the model returns `none`.

* `SeekWindow.Wf`: the size is the sum of the parts' lengths and at most the maximum, and
  the parts lie one after the other;
* `push_spec`: a push keeps that, drops only parts from the front, and leaves the window
  ending with the part pushed (or empty, when the part alone is over the maximum);
* `readBack_spec`, `readBack_of_lt`: `read_back(k)` with `k` at most the size returns the
  last `k` bytes of the window, at their offsets, and leaves the rest; above the size it
  returns `None` and changes nothing;
* `run_wf`: along every run from `SeekWindow::new` whose pushes each start where the window
  ends, nothing panics and `Wf` holds after every operation.

The window ends where the last pushed part ends only until a `read_back`, which shortens it
from the back: a part pushed next at the end of the previous one leaves a gap.
-/

namespace MountpointS3.Prefetch

open Foundations

/-- `SeekWindow`; `parts` is the deque from front to back. -/
structure SeekWindow where
  parts : List Part
  maxSize : ℕ
  currentSize : ℕ
  deriving DecidableEq, Repr

namespace SeekWindow

/-- `SeekWindow::new`; `none` where `assert!(max_size > 0)` fails. -/
def new (maxSize : ℕ) : Option SeekWindow :=
  if 0 < maxSize then some ⟨[], maxSize, 0⟩ else none

/-- `SeekWindow::clear`. -/
def clear (w : SeekWindow) : SeekWindow := { w with parts := [], currentSize := 0 }

/-- The `while` loop of `push`: parts leave the front until `len` more bytes fit. -/
def pushLoop (maxSize len : ℕ) (parts : List Part) (currentSize : ℕ) :
    Option (List Part × ℕ) :=
  if maxSize - currentSize < len then
    match parts with
    | [] => none
    | p :: parts => pushLoop maxSize len parts (currentSize - p.len)
  else some (parts, currentSize)

/-- `SeekWindow::push`. -/
def push (w : SeekWindow) (part : Part) : Option SeekWindow :=
  if part.len > w.maxSize then some w.clear
  else
    (pushLoop w.maxSize part.len w.parts w.currentSize).map fun r =>
      { w with parts := r.1 ++ [part], currentSize := r.2 + part.len }

/-- The `loop` of `read_back`. `back` is the deque from back to front, `result` the parts read
so far, in offset order. A part longer than what is still wanted is split: its head goes back
onto the window. -/
def readBackLoop (length : ℕ) (back : List Part) (currentSize : ℕ) (result : List Part) :
    Option (List Part × ℕ × List Part) :=
  if length = 0 then some (back, currentSize, result)
  else
    match back with
    | [] => none
    | part :: back =>
      if part.len > length then
        let split := part.splitOff (part.len - length)
        readBackLoop (length - split.2.len) (split.1 :: back) (currentSize - split.2.len)
          (split.2 :: result)
      else readBackLoop (length - part.len) back (currentSize - part.len) (part :: result)
termination_by back.length + length
decreasing_by
  all_goals simp only [List.length_cons, Part.splitOff_snd_len]
  all_goals omega

/-- `SeekWindow::read_back`: what it returns and the window after. -/
def readBack (w : SeekWindow) (length : ℕ) : Option (Option (List Part) × SeekWindow) :=
  if length > w.currentSize then some (none, w)
  else
    (readBackLoop length w.parts.reverse w.currentSize []).map fun r =>
      (some r.2.2, { w with parts := r.1.reverse, currentSize := r.2.1 })

/-! ## The invariant -/

/-- What holds of the window between calls. -/
structure Wf (w : SeekWindow) : Prop where
  max_pos : 0 < w.maxSize
  size_eq : w.currentSize = totalLen w.parts
  size_le : w.currentSize ≤ w.maxSize
  contiguous : ∃ start, Contiguous start w.parts

/-- A part pushed where the window ends: the parts with it are contiguous. On an empty window
any offset does. -/
def PushesAtEnd (w : SeekWindow) (part : Part) : Prop :=
  ∃ start, Contiguous start (w.parts ++ [part])

theorem wf_new {maxSize : ℕ} (h : 0 < maxSize) : ∃ w, new maxSize = some w ∧ w.Wf :=
  ⟨_, if_pos h, ⟨h, rfl, Nat.zero_le _, 0, trivial⟩⟩

theorem Wf.clear {w : SeekWindow} (h : w.Wf) : w.clear.Wf :=
  ⟨h.max_pos, rfl, Nat.zero_le _, 0, trivial⟩

/-! ## `push` -/

/-- The loop of `push` drops a prefix of the parts, the shortest after which `len` more bytes
fit; it never pops an empty window when `len` fits in the maximum. -/
theorem pushLoop_spec {maxSize len : ℕ} (hlen : len ≤ maxSize) :
    ∀ (parts : List Part) (currentSize : ℕ), currentSize = totalLen parts →
      currentSize ≤ maxSize → ∃ dropped kept, parts = dropped ++ kept ∧
        pushLoop maxSize len parts currentSize = some (kept, totalLen kept) ∧
        totalLen kept + len ≤ maxSize
  | parts, currentSize, hsize, hle => by
    unfold pushLoop
    split
    · rename_i hfull
      cases parts with
      | nil => simp at hsize; omega
      | cons p parts =>
        -- the front part leaves; the rest is still within the maximum
        obtain ⟨dropped, kept, rfl, hrun, hfit⟩ :=
          pushLoop_spec hlen parts (currentSize - p.len) (by simp at hsize; omega) (by omega)
        exact ⟨p :: dropped, kept, rfl, hrun, hfit⟩
    · rename_i hfits
      exact ⟨[], parts, rfl, by rw [hsize], by omega⟩

/-- **`push` keeps the invariant**, drops parts from the front only, and leaves the window
ending with the pushed part, or empty when the part alone is over the maximum. -/
theorem push_spec {w : SeekWindow} {part : Part} (hw : w.Wf) (hp : w.PushesAtEnd part) :
    ∃ w', w.push part = some w' ∧ w'.Wf ∧ w'.maxSize = w.maxSize ∧
      (w.maxSize < part.len → w'.parts = []) ∧
      (part.len ≤ w.maxSize → ∃ dropped kept, w.parts = dropped ++ kept ∧
        w'.parts = kept ++ [part]) := by
  unfold push
  split
  · rename_i hover
    exact ⟨w.clear, rfl, hw.clear, rfl, fun _ => rfl, fun h => absurd h (Nat.not_le.2 hover)⟩
  · rename_i hfits
    have hlen : part.len ≤ w.maxSize := Nat.le_of_not_lt hfits
    obtain ⟨dropped, kept, hsplit, hrun, hfit⟩ :=
      pushLoop_spec hlen w.parts w.currentSize hw.size_eq hw.size_le
    obtain ⟨start, hc⟩ := hp
    rw [hsplit, List.append_assoc, contiguous_append] at hc
    refine ⟨{ w with parts := kept ++ [part], currentSize := totalLen kept + part.len },
      by rw [hrun]; rfl, ⟨hw.max_pos, by simp, hfit, _, hc.2⟩, rfl,
      fun h => absurd hlen (Nat.not_le.2 h), fun _ => ⟨dropped, kept, hsplit, rfl⟩⟩

/-! ## `read_back` -/

/-- The loop of `read_back` moves `length` bytes from the back of the window to the front of
the result: the parts, window then result, keep their bytes, and stay contiguous. -/
theorem readBackLoop_spec (length : ℕ) (back : List Part) (currentSize : ℕ) (result : List Part)
    (hsize : currentSize = totalLen back) (hlen : length ≤ totalLen back) :
    ∃ back' read, readBackLoop length back currentSize result =
        some (back', currentSize - length, read ++ result) ∧
      totalLen read = length ∧ totalLen back' = totalLen back - length ∧
      bytes (back'.reverse ++ read ++ result) = bytes (back.reverse ++ result) ∧
      ∀ start, Contiguous start (back.reverse ++ result) →
        Contiguous start (back'.reverse ++ read ++ result) := by
  fun_induction readBackLoop length back currentSize result with
  | case1 back currentSize result =>
    exact ⟨back, [], by simp, by simp, by simp, by simp, fun _ h => by simpa using h⟩
  | case2 length currentSize result hzero => simp at hlen; omega
  | case3 length currentSize result hzero part back hsplit split ih =>
    -- the head of the part goes back; its last `length` bytes are read
    have hidx : part.len - length ≤ part.len := Nat.sub_le _ _
    have htail : split.2.len = length := by simp [split]; omega
    have hfront : split.1.len = part.len - length := Part.splitOff_fst_len part hidx
    obtain ⟨back', read, hrun, hread, hback, hbytes, hcont⟩ :=
      ih (by rw [hsize, totalLen_cons, totalLen_cons, hfront, htail]; omega) (by simp [htail])
    refine ⟨back', read ++ [split.2], ?_, ?_, ?_, ?_, fun start h => ?_⟩
    · rw [hrun]; simp [htail, List.append_assoc]
    · simp [hread, htail]
    · simp [hback, hfront]; omega
    · have hpart : split.1.data ++ split.2.data = part.data := part.splitOff_data
      simp only [List.reverse_cons, bytes_append, bytes_cons, bytes_nil, List.append_assoc,
        List.append_nil] at hbytes ⊢
      rw [hbytes, ← hpart, List.append_assoc]
    · have hparts : Contiguous start (back.reverse ++ part :: result) := by simpa using h
      have h' := (contiguous_splitOff hidx).1 hparts
      simpa [List.append_assoc] using hcont start (by simpa [List.append_assoc] using h')
  | case4 length currentSize result hzero part back hfits ih =>
    -- the whole part is read
    have hle : part.len ≤ length := Nat.le_of_not_lt hfits
    obtain ⟨back', read, hrun, hread, hback, hbytes, hcont⟩ :=
      ih (by simp at hsize; omega) (by simp at hlen; omega)
    refine ⟨back', read ++ [part], ?_, ?_, ?_, ?_, fun start h => ?_⟩
    · rw [hrun]; simp [List.append_assoc]; omega
    · simp [hread]; omega
    · simp [hback]; omega
    · simpa [List.append_assoc] using hbytes
    · simpa [List.append_assoc] using hcont start (by simpa [List.append_assoc] using h)

/-- What `read_back(length)` leaves and returns: `read` are the last `length` bytes of the
window, at their offsets, and the window keeps the rest. -/
structure ReadsBack (w : SeekWindow) (length : ℕ) (read : List Part) (w' : SeekWindow) :
    Prop where
  wf : w'.Wf
  maxSize_eq : w'.maxSize = w.maxSize
  currentSize_eq : w'.currentSize = w.currentSize - length
  totalLen_eq : totalLen read = length
  bytes_read : bytes read = (bytes w.parts).drop (w.currentSize - length)
  bytes_kept : bytes w'.parts = (bytes w.parts).take (w.currentSize - length)
  contiguous : ∀ start, Contiguous start w.parts → Contiguous start (w'.parts ++ read)

/-- **`read_back` within the window** returns its last `length` bytes and keeps the rest. -/
theorem readBack_spec {w : SeekWindow} {length : ℕ} (hw : w.Wf)
    (hlen : length ≤ w.currentSize) :
    ∃ read w', w.readBack length = some (some read, w') ∧ w.ReadsBack length read w' := by
  have hsize : w.currentSize = totalLen w.parts.reverse := by
    rw [totalLen_reverse, hw.size_eq]
  obtain ⟨back', read, hrun, hread, hback, hbytes, hcont⟩ :=
    readBackLoop_spec length w.parts.reverse w.currentSize [] hsize (hsize ▸ hlen)
  have hkept : totalLen back'.reverse = w.currentSize - length := by
    rw [totalLen_reverse, hback, ← hsize]
  simp only [List.reverse_reverse, List.append_nil] at hbytes hcont
  refine ⟨read, { w with parts := back'.reverse, currentSize := w.currentSize - length },
    by simp [readBack, Nat.not_lt.2 hlen, hrun], ⟨⟨hw.max_pos, hkept.symm, ?_, ?_⟩,
    rfl, rfl, hread, ?_, ?_, hcont⟩⟩
  · exact Nat.le_trans (Nat.sub_le _ _) hw.size_le
  · obtain ⟨start, hc⟩ := hw.contiguous
    exact ⟨start, (contiguous_append.1 (hcont start hc)).1⟩
  · rw [← hbytes, bytes_append, List.drop_left' (by simp [hkept])]
  · rw [← hbytes, bytes_append, List.take_left' (by simp [hkept])]

/-- `read_back` beyond the window returns `None` and leaves it as it is. -/
theorem readBack_of_lt {w : SeekWindow} {length : ℕ} (h : w.currentSize < length) :
    w.readBack length = some (none, w) := by
  simp [readBack, h]

/-! ## Runs -/

/-- The calls on a window. -/
inductive Op
  | push (part : Part)
  | readBack (length : ℕ)
  | clear

/-- One call; `none` once a call has panicked. -/
def step : Option SeekWindow → Op → Option SeekWindow
  | none, _ => none
  | some w, .push part => w.push part
  | some w, .readBack length => (w.readBack length).map Prod.snd
  | some w, .clear => some w.clear

/-- The calls a prefetcher makes: each push starts where the window ends. -/
def StartsAtEnd : Option SeekWindow → Op → Prop
  | some w, .push part => w.PushesAtEnd part
  | _, _ => True

/-- One call keeps the window well formed, with its maximum, and does not panic. -/
theorem step_wf {s : Option SeekWindow} {op : Op} {maxSize : ℕ}
    (hs : ∃ w, s = some w ∧ w.Wf ∧ w.maxSize = maxSize) (hok : StartsAtEnd s op) :
    ∃ w, step s op = some w ∧ w.Wf ∧ w.maxSize = maxSize := by
  obtain ⟨w, rfl, hw, hmax⟩ := hs
  cases op with
  | push part =>
    obtain ⟨w', hpush, hw', hmax', -⟩ := push_spec hw hok
    exact ⟨w', hpush, hw', hmax'.trans hmax⟩
  | readBack length =>
    rcases Nat.lt_or_ge w.currentSize length with hlt | hle
    · exact ⟨w, by simp [step, readBack_of_lt hlt], hw, hmax⟩
    · obtain ⟨read, w', hrb, hreads⟩ := readBack_spec hw hle
      exact ⟨w', by simp [step, hrb], hreads.wf, hreads.maxSize_eq.trans hmax⟩
  | clear => exact ⟨w.clear, rfl, hw.clear, hmax⟩

/-- **Every run keeps the window well formed.** From `SeekWindow::new` with a positive
maximum, along calls whose pushes start where the window ends, no call panics and the
window is well formed after each. -/
theorem run_wf {maxSize : ℕ} (hmax : 0 < maxSize) (ops : List Op)
    (hok : Allowed step StartsAtEnd (new maxSize) ops) :
    ∃ w, run step (new maxSize) ops = some w ∧ w.Wf ∧ w.maxSize = maxSize := by
  refine run_invariant_of_allowed (P := fun s => ∃ w, s = some w ∧ w.Wf ∧ w.maxSize = maxSize)
    (fun _ _ hs hok => step_wf hs hok) ops ?_ hok
  obtain ⟨w, hnew, hw⟩ := wf_new hmax
  exact ⟨w, hnew, hw, by simp [new, hmax] at hnew; rw [← hnew]⟩

/-- What a window guarantees between calls: it is well formed with its maximum, a push where
it ends leaves it ending with the part pushed, and `read_back` answers from its last bytes. -/
structure Guarantees (maxSize : ℕ) (w : SeekWindow) : Prop where
  wf : w.Wf
  maxSize_eq : w.maxSize = maxSize
  push_ends : ∀ part, w.PushesAtEnd part → part.len ≤ maxSize →
    ∃ w', w.push part = some w' ∧ w'.parts.getLast? = some part
  readBack_none : ∀ length, w.currentSize < length → w.readBack length = some (none, w)
  readBack_some : ∀ length, length ≤ w.currentSize →
    ∃ read w', w.readBack length = some (some read, w') ∧ w.ReadsBack length read w'

theorem Wf.guarantees {w : SeekWindow} (hw : w.Wf) : w.Guarantees w.maxSize where
  wf := hw
  maxSize_eq := rfl
  push_ends part hp hlen := by
    obtain ⟨w', hpush, -, -, -, hkept⟩ := push_spec hw hp
    obtain ⟨-, kept, -, hparts⟩ := hkept hlen
    exact ⟨w', hpush, by simp [hparts]⟩
  readBack_none _ := readBack_of_lt
  readBack_some _ := readBack_spec hw

/-- From `SeekWindow::new` with a positive maximum, along every sequence of calls whose pushes
start where the window ends, no call panics and after each the window gives its guarantees. -/
theorem seek_window_keeps_recent_bytes {maxSize : ℕ} (hmax : 0 < maxSize) (ops : List Op)
    (hok : Allowed step StartsAtEnd (new maxSize) ops) :
    ∃ w, run step (new maxSize) ops = some w ∧ w.Guarantees maxSize := by
  obtain ⟨w, hrun, hw, hmaxSize⟩ := run_wf hmax ops hok
  exact ⟨w, hrun, hmaxSize ▸ hw.guarantees⟩

theorem seek_window_keeps_recent_bytes_two_pushes :
    ∃ w, run step (new 10) [.push ⟨0, [1, 2]⟩, .push ⟨2, [3]⟩, .readBack 2] = some w ∧
      w.Guarantees 10 :=
  seek_window_keeps_recent_bytes (by decide) _ (by
    simp [Allowed, StartsAtEnd, PushesAtEnd, step, new, push, pushLoop, Part.len])

/-- After `read_back` the window no longer ends where the last pushed part ended: the next part
of the stream, pushed where that part ended, leaves a gap of one byte. -/
theorem seek_window_gap_after_read_back :
    run step (new 10) [.push ⟨0, [0, 0]⟩, .readBack 1, .push ⟨2, [0, 0]⟩] =
        some ⟨[⟨0, [0]⟩, ⟨2, [0, 0]⟩], 10, 3⟩ ∧
      ¬∃ start, Contiguous start [⟨0, [0]⟩, ⟨2, [0, 0]⟩] := by
  constructor
  · simp [step, new, push, pushLoop, readBack, readBackLoop, Part.len, Part.splitOff]
  · rintro ⟨start, hstart, hnext, -⟩
    simp [Part.len] at hstart hnext
    omega

end SeekWindow

end MountpointS3.Prefetch
