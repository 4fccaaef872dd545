import Mathlib
import MountpointS3.Foundations.Bincode

/-!
# Checksummed bytes

`checksums.rs`: a `ChecksummedBytes` is a buffer, a range of it (the bytes it stands for) and
a CRC32C of the whole buffer. Splitting and slicing move the range and keep the checksum;
`shrink_to_fit` cuts the buffer to the range, computing the new checksum after validating the
old one; `extend` combines the exact checksums of two values with `crc32c_combine`. Integrity
validation is on (the environment variable that turns it off is not set).

The CRC32C and its combine are parameters (`Crc`); `Crc.Lawful` is the law of
`crc32c_combine` that the proofs use. A value is `Sound` when its checksum is the CRC32C of
its buffer.

* `*_sound`: on sound values each operation gives sound values holding the expected bytes;
* `shrinkToFit_unsound`, `extend_unsound_left`, `extend_unsound_right`: an operation on one
  unsound value fails or gives an unsound value, when the combine is injective in the
  argument the unsound checksum goes to;
* `Expr`: the compositions of the operations, with what `Expr.eval` computes and the bytes
  `Expr.expected` says they should hold; `eval_sound` and `eval_unsound` carry the two facts
  above through a whole composition;
* with two unsound values, `extend` can give a sound one: whenever the combine is injective in
  its first argument it is onto, so an unsound suffix checksum has a prefix checksum that
  makes the combined one right;
* `Crc.DetectsWordChange`, the burst-error detection the header checksums of the data caches
  rest on; `wordSum`, the sum of a string's 32-bit words, has it too.
-/

namespace MountpointS3.Checksums

/-- The CRC32C of the crc32c crate: `crc32c::checksum` and `crc32c_combine`. -/
structure Crc where
  checksum : List UInt8 → UInt32
  combine : UInt32 → UInt32 → ℕ → UInt32

/-- The laws of the CRC32C that the proofs use: `crc32c_combine` gives the checksum of a
concatenation, and the empty string has checksum `0`. -/
structure Crc.Lawful (crc : Crc) : Prop where
  combine_checksum : ∀ a b, crc.combine (crc.checksum a) (crc.checksum b) b.length =
    crc.checksum (a ++ b)
  checksum_nil : crc.checksum [] = 0

/-- The burst-error detection of the CRC32C: a change confined to four consecutive bytes of a
string changes its checksum. Its generator polynomial has degree 32 and a nonzero constant term,
so no nonzero burst of at most 32 bits is a multiple of it. -/
def Crc.DetectsWordChange (crc : Crc) : Prop :=
  ∀ a b c d : List UInt8, b.length = 4 → c.length = 4 → b ≠ c →
    crc.checksum (a ++ b ++ d) ≠ crc.checksum (a ++ c ++ d)

/-- A checksum that detects every change within four bytes tells apart two strings that differ
only in a final big-endian `u32`, as the inputs of the header checksums of the data caches end in
their block's data checksum. -/
theorem Crc.DetectsWordChange.checksum_append_beBytes_ne {crc : Crc} (hd : crc.DetectsWordChange)
    (a : List UInt8) {c c' : UInt32} (hne : c ≠ c') :
    crc.checksum (a ++ Foundations.beBytes 4 c.toNat) ≠
      crc.checksum (a ++ Foundations.beBytes 4 c'.toNat) := by
  have hbytes : Foundations.beBytes 4 c.toNat ≠ Foundations.beBytes 4 c'.toNat := fun h =>
    hne (UInt32.toNat_inj.1 (Foundations.beBytes_injective (by simpa using c.toNat_lt)
      (by simpa using c'.toNat_lt) h))
  simpa only [List.append_nil] using
    hd a _ _ [] (Foundations.length_beBytes ..) (Foundations.length_beBytes ..) hbytes

/-- `IntegrityError`. -/
inductive IntegrityError
  | checksumMismatch (expected actual : UInt32)
  deriving DecidableEq, Repr

/-- `ChecksummedBytes`: `range` is `start..stop`, within the buffer. -/
structure ChecksummedBytes where
  buffer : List UInt8
  start : ℕ
  stop : ℕ
  checksum : UInt32
  start_le_stop : start ≤ stop
  stop_le_length : stop ≤ buffer.length

/-- `std::ops::Bound`, for the range given to `slice`. -/
inductive RangeBound
  | included (n : ℕ)
  | excluded (n : ℕ)
  | unbounded
  deriving DecidableEq, Repr

/-- The offset `slice` starts at, from the start bound of its range. -/
def RangeBound.startOffset : RangeBound → ℕ
  | .included n => n
  | .excluded n => n + 1
  | .unbounded => 0

/-- The offset `slice` ends at, from the end bound of its range, on a value of length `len`. -/
def RangeBound.endOffset (len : ℕ) : RangeBound → ℕ
  | .included n => n + 1
  | .excluded n => n
  | .unbounded => len

variable (crc : Crc)

/-- `combine_checksums`. -/
def combineChecksums (prefixCrc suffixCrc : UInt32) (suffixLen : ℕ) : UInt32 :=
  crc.combine prefixCrc suffixCrc suffixLen

namespace ChecksummedBytes

/-- `ChecksummedBytes::new_from_inner_data`. -/
def newFromInnerData (bytes : List UInt8) (checksum : UInt32) : ChecksummedBytes :=
  ⟨bytes, 0, bytes.length, checksum, Nat.zero_le _, le_rfl⟩

/-- `ChecksummedBytes::new`. -/
def new (bytes : List UInt8) : ChecksummedBytes := newFromInnerData bytes (crc.checksum bytes)

variable (x y : ChecksummedBytes)

/-- `ChecksummedBytes::len`. -/
def len : ℕ := x.stop - x.start

/-- `ChecksummedBytes::is_empty`. -/
def isEmpty : Bool := !decide (x.start < x.stop)

/-- `ChecksummedBytes::buffer_slice`: the bytes the value stands for. -/
def bufferSlice : List UInt8 := (x.buffer.take x.stop).drop x.start

/-- `ChecksummedBytes::validate`. -/
def validate : Except IntegrityError Unit :=
  let checksum := crc.checksum x.buffer
  if x.checksum ≠ checksum then .error (.checksumMismatch x.checksum checksum) else .ok ()

/-- `ChecksummedBytes::into_bytes`. -/
def intoBytes : Except IntegrityError (List UInt8) := do
  x.validate crc
  pure x.bufferSlice

/-- `ChecksummedBytes::split_off`: the value keeps `[0, idx)` and returns `[idx, len)`;
`none` where `assert!(at < self.len())` fails. -/
def splitOff (idx : ℕ) : Option (ChecksummedBytes × ChecksummedBytes) :=
  if h : idx < x.len then
    some (⟨x.buffer, x.start, x.start + idx, x.checksum, Nat.le_add_right _ _,
        by have := x.stop_le_length; unfold len at h; omega⟩,
      ⟨x.buffer, x.start + idx, x.stop, x.checksum, by unfold len at h; omega,
        x.stop_le_length⟩)
  else none

/-- `ChecksummedBytes::slice`; `none` where one of its assertions fails. -/
def slice (startBound endBound : RangeBound) : Option ChecksummedBytes :=
  let sliceStartOffset := startBound.startOffset
  let sliceEndOffset := endBound.endOffset x.len
  if h : sliceStartOffset ≤ sliceEndOffset ∧ sliceEndOffset ≤ x.len then
    some ⟨x.buffer, x.start + sliceStartOffset, x.start + sliceEndOffset, x.checksum,
      by omega, by
        have := x.stop_le_length; have := x.start_le_stop
        have hlen : x.len = x.stop - x.start := rfl
        omega⟩
  else none

/-- `ChecksummedBytes::shrink_to_fit`: the value after it. -/
def shrinkToFit : Except IntegrityError ChecksummedBytes :=
  if x.len = x.buffer.length then .ok x
  else
    let bytes := x.bufferSlice
    let checksum := crc.checksum bytes
    match x.validate crc with
    | .error e => .error e
    | .ok () => .ok ⟨bytes, 0, bytes.length, checksum, Nat.zero_le _, le_rfl⟩

/-- `ChecksummedBytes::extend`: its result, and the value it leaves in `self`. -/
def extend : Except IntegrityError Unit × ChecksummedBytes :=
  if y.isEmpty then
    match y.validate crc with
    | .error e => (.error e, x)
    | .ok () => (.ok (), x)
  else if x.isEmpty then
    match x.validate crc with
    | .error e => (.error e, x)
    | .ok () => (.ok (), y)
  else
    match x.shrinkToFit crc with
    | .error e => (.error e, x)
    | .ok x =>
      match y.shrinkToFit crc with
      | .error e => (.error e, x)
      | .ok y =>
        let newChecksum := combineChecksums crc x.checksum y.checksum y.len
        let newBytes := x.buffer ++ y.buffer
        (.ok (), ⟨newBytes, 0, newBytes.length, newChecksum, Nat.zero_le _, le_rfl⟩)

/-- `ChecksummedBytes::into_inner`. -/
def intoInner : Except IntegrityError (List UInt8 × UInt32) := do
  let x ← x.shrinkToFit crc
  pure (x.buffer, x.checksum)

/-! ## Soundness -/

/-- The checksum is the CRC32C of the buffer. -/
def Sound : Prop := x.checksum = crc.checksum x.buffer

instance : Decidable (x.Sound crc) := inferInstanceAs (Decidable (x.checksum = _))

variable {crc x y}

theorem validate_eq_ok_iff : x.validate crc = .ok () ↔ x.Sound crc := by
  simp only [validate, Sound]
  split <;> simp_all

theorem validate_of_not_sound (h : ¬x.Sound crc) :
    ∃ e, x.validate crc = .error e :=
  ⟨_, if_pos h⟩

theorem length_bufferSlice : x.bufferSlice.length = x.len := by
  have := x.stop_le_length
  simp only [bufferSlice, len, List.length_drop, List.length_take]
  omega

/-- A value whose range is its whole buffer stands for the whole buffer. -/
theorem bufferSlice_of_exact (h : x.len = x.buffer.length) : x.bufferSlice = x.buffer := by
  have := x.stop_le_length
  have := x.start_le_stop
  have hlen : x.len = x.stop - x.start := rfl
  have hstart : x.start = 0 := by omega
  have hstop : x.stop = x.buffer.length := by omega
  simp [bufferSlice, hstart, hstop]

theorem isEmpty_iff : x.isEmpty = true ↔ x.len = 0 := by
  have := x.start_le_stop
  simp only [isEmpty, len, Bool.not_eq_true', decide_eq_false_iff_not, Nat.not_lt]
  omega

theorem intoBytes_of_sound (h : x.Sound crc) : x.intoBytes crc = .ok x.bufferSlice := by
  simp [intoBytes, (validate_eq_ok_iff.2 h)]

theorem intoBytes_of_not_sound (h : ¬x.Sound crc) : ∃ e, x.intoBytes crc = .error e := by
  obtain ⟨e, he⟩ := validate_of_not_sound h
  exact ⟨e, by simp [intoBytes, he, bind, Except.bind]⟩

theorem sound_congr (hb : x.buffer = y.buffer) (hc : x.checksum = y.checksum) :
    x.Sound crc ↔ y.Sound crc := by
  simp [Sound, hb, hc]

theorem len_of_isEmpty_false (h : x.isEmpty = false) : 0 < x.len := by
  have := (isEmpty_iff (x := x)).not.1 (by simp [h])
  omega

theorem bufferSlice_of_isEmpty (h : x.isEmpty = true) : x.bufferSlice = [] := by
  rw [← List.length_eq_zero_iff, length_bufferSlice, ← isEmpty_iff, h]

/-! ## `split_off` and `slice` keep the buffer and the checksum -/

theorem splitOff_eq_some {idx : ℕ} (h : idx < x.len) :
    ∃ p s, x.splitOff idx = some (p, s) ∧ p.buffer = x.buffer ∧ p.checksum = x.checksum ∧
      s.buffer = x.buffer ∧ s.checksum = x.checksum ∧
      p.bufferSlice = x.bufferSlice.take idx ∧ s.bufferSlice = x.bufferSlice.drop idx := by
  have hidx : x.start + idx ≤ x.stop := by unfold len at h; omega
  refine ⟨_, _, dif_pos h, rfl, rfl, rfl, rfl, ?_, ?_⟩
  · simp only [bufferSlice]
    rw [List.take_drop, List.take_take, Nat.min_eq_left hidx]
  · simp only [bufferSlice]
    rw [List.drop_drop]

theorem splitOff_eq_none {idx : ℕ} (h : ¬idx < x.len) : x.splitOff idx = none :=
  dif_neg h

theorem slice_eq_some {startBound endBound : RangeBound}
    (h : startBound.startOffset ≤ endBound.endOffset x.len ∧
      endBound.endOffset x.len ≤ x.len) :
    ∃ v, x.slice startBound endBound = some v ∧ v.buffer = x.buffer ∧
      v.checksum = x.checksum ∧
      v.bufferSlice =
        (x.bufferSlice.take (endBound.endOffset x.len)).drop startBound.startOffset := by
  have := x.start_le_stop
  have hlen : x.len = x.stop - x.start := rfl
  have hend : x.start + endBound.endOffset x.len ≤ x.stop := by omega
  refine ⟨_, dif_pos h, rfl, rfl, ?_⟩
  simp only [bufferSlice]
  rw [List.take_drop, List.take_take, Nat.min_eq_left hend, List.drop_drop]

theorem slice_eq_none {startBound endBound : RangeBound}
    (h : ¬(startBound.startOffset ≤ endBound.endOffset x.len ∧
      endBound.endOffset x.len ≤ x.len)) :
    x.slice startBound endBound = none :=
  dif_neg h

/-! ## `shrink_to_fit` -/

/-- On a sound value `shrink_to_fit` gives a sound value whose buffer is exactly its bytes. -/
theorem shrinkToFit_sound (h : x.Sound crc) :
    ∃ x', x.shrinkToFit crc = .ok x' ∧ x'.Sound crc ∧ x'.buffer = x.bufferSlice ∧
      x'.len = x'.buffer.length := by
  unfold shrinkToFit
  split
  · rename_i hexact
    exact ⟨x, rfl, h, (bufferSlice_of_exact hexact).symm, hexact⟩
  · rw [validate_eq_ok_iff.2 h]
    exact ⟨_, rfl, rfl, rfl, by simp [len]⟩

/-- On an unsound value `shrink_to_fit` fails, unless the range is the whole buffer: then it
leaves the value as it is, unsound. -/
theorem shrinkToFit_unsound (h : ¬x.Sound crc) :
    (∃ e, x.shrinkToFit crc = .error e) ∨
      (x.shrinkToFit crc = .ok x ∧ x.len = x.buffer.length) := by
  unfold shrinkToFit
  split
  · rename_i hexact
    exact .inr ⟨rfl, hexact⟩
  · obtain ⟨e, he⟩ := validate_of_not_sound h
    exact .inl ⟨e, by rw [he]⟩

theorem bufferSlice_shrinkToFit {x' : ChecksummedBytes} (h : x.shrinkToFit crc = .ok x') :
    x'.bufferSlice = x.bufferSlice := by
  unfold shrinkToFit at h
  split at h
  · rename_i hexact
    cases h
    rfl
  · split at h
    · cases h
    · cases h
      exact bufferSlice_of_exact (by simp [len])

/-- What `shrink_to_fit` leaves is exactly the bytes of the range. -/
theorem buffer_shrinkToFit {x' : ChecksummedBytes} (h : x.shrinkToFit crc = .ok x') :
    x'.buffer = x.bufferSlice := by
  unfold shrinkToFit at h
  split at h
  · rename_i hexact
    cases h
    exact (bufferSlice_of_exact hexact).symm
  · split at h
    · cases h
    · cases h
      rfl

theorem length_buffer_shrinkToFit {x' : ChecksummedBytes} (h : x.shrinkToFit crc = .ok x') :
    x'.buffer.length = x.len := by
  rw [buffer_shrinkToFit h, length_bufferSlice]

/-! ## `extend` -/

/-- `extend` of two values that are not empty: both are shrunk to fit, and the checksums of
what is left combined. -/
theorem extend_of_shrinkToFit {x' y' : ChecksummedBytes} (hx : x.isEmpty = false)
    (hy : y.isEmpty = false) (hx' : x.shrinkToFit crc = .ok x') (hy' : y.shrinkToFit crc = .ok y') :
    x.extend crc y = (.ok (), ⟨x'.buffer ++ y'.buffer, 0, (x'.buffer ++ y'.buffer).length,
      combineChecksums crc x'.checksum y'.checksum y'.len, Nat.zero_le _, le_rfl⟩) := by
  simp [extend, hx, hy, hx', hy']

/-- **`extend` of sound values** is a sound value holding the bytes of both. -/
theorem extend_sound (hlaw : crc.Lawful) (hx : x.Sound crc) (hy : y.Sound crc) :
    ∃ z, x.extend crc y = (.ok (), z) ∧ z.Sound crc ∧
      z.bufferSlice = x.bufferSlice ++ y.bufferSlice := by
  cases hye : y.isEmpty
  · cases hxe : x.isEmpty
    · obtain ⟨x', hx', hxs, hxb, hxl⟩ := shrinkToFit_sound hx
      obtain ⟨y', hy', hys, hyb, hyl⟩ := shrinkToFit_sound hy
      refine ⟨_, extend_of_shrinkToFit hxe hye hx' hy', ?_, ?_⟩
      · -- the combined checksum is the checksum of the concatenation
        show combineChecksums crc x'.checksum y'.checksum y'.len =
          crc.checksum (x'.buffer ++ y'.buffer)
        rw [combineChecksums, hxs, hys, hyl, hlaw.combine_checksum]
      · rw [bufferSlice_of_exact (by simp [len]), ← hxb, ← hyb]
    · refine ⟨y, by simp [extend, hye, hxe, validate_eq_ok_iff.2 hx], hy, ?_⟩
      rw [bufferSlice_of_isEmpty hxe, List.nil_append]
  · refine ⟨x, by simp [extend, hye, validate_eq_ok_iff.2 hy], hx, ?_⟩
    rw [bufferSlice_of_isEmpty hye, List.append_nil]

section Injective

variable (hlaw : crc.Lawful)
include hlaw

/-- **`extend` does not hide an unsound prefix** when the combine is injective in the prefix
checksum: it fails or gives an unsound value. -/
theorem extend_unsound_left (hinj : ∀ b n, Function.Injective fun a => crc.combine a b n)
    (hx : ¬x.Sound crc) (hy : y.Sound crc) {z : ChecksummedBytes}
    (hz : x.extend crc y = (.ok (), z)) : ¬z.Sound crc := by
  cases hye : y.isEmpty
  · cases hxe : x.isEmpty
    · rcases shrinkToFit_unsound hx with ⟨e, he⟩ | ⟨hx', hexact⟩
      · simp [extend, hye, hxe, he] at hz
      obtain ⟨y', hy', hys, -, hyl⟩ := shrinkToFit_sound hy
      rw [extend_of_shrinkToFit hxe hye hx' hy'] at hz
      cases hz
      intro hzs
      -- a right combined checksum would make the prefix checksum right
      have hcomb : crc.combine x.checksum (crc.checksum y'.buffer) y'.buffer.length =
          crc.combine (crc.checksum x.buffer) (crc.checksum y'.buffer) y'.buffer.length := by
        rw [hlaw.combine_checksum, ← hyl, ← hys]
        exact hzs
      exact hx (hinj _ _ hcomb)
    · obtain ⟨e, he⟩ := validate_of_not_sound hx
      simp [extend, hye, hxe, he] at hz
  · simp [extend, hye, validate_eq_ok_iff.2 hy] at hz
    rw [← hz]
    exact hx

/-- **`extend` does not hide an unsound suffix** when the combine is injective in the suffix
checksum: it fails or gives an unsound value. -/
theorem extend_unsound_right (hinj : ∀ a n, Function.Injective fun b => crc.combine a b n)
    (hx : x.Sound crc) (hy : ¬y.Sound crc) {z : ChecksummedBytes}
    (hz : x.extend crc y = (.ok (), z)) : ¬z.Sound crc := by
  cases hye : y.isEmpty
  · cases hxe : x.isEmpty
    · obtain ⟨x', hx', hxs, -, -⟩ := shrinkToFit_sound hx
      rcases shrinkToFit_unsound hy with ⟨e, he⟩ | ⟨hy', hexact⟩
      · simp [extend, hye, hxe, hx', he] at hz
      rw [extend_of_shrinkToFit hxe hye hx' hy'] at hz
      cases hz
      intro hzs
      -- a right combined checksum would make the suffix checksum right
      have hcomb : crc.combine (crc.checksum x'.buffer) y.checksum y.buffer.length =
          crc.combine (crc.checksum x'.buffer) (crc.checksum y.buffer) y.buffer.length := by
        rw [hlaw.combine_checksum, ← hexact, ← hxs]
        exact hzs
      exact hy (hinj _ _ hcomb)
    · simp [extend, hye, hxe, validate_eq_ok_iff.2 hx] at hz
      rw [← hz]
      exact hy
  · obtain ⟨e, he⟩ := validate_of_not_sound hy
    simp [extend, hye, he] at hz

end Injective



theorem splitOff_sound_iff {idx : ℕ} {p s : ChecksummedBytes}
    (h : x.splitOff idx = some (p, s)) :
    (p.Sound crc ↔ x.Sound crc) ∧ (s.Sound crc ↔ x.Sound crc) := by
  unfold splitOff at h
  split at h
  · cases h
    exact ⟨Iff.rfl, Iff.rfl⟩
  · cases h

theorem slice_sound_iff {startBound endBound : RangeBound} {v : ChecksummedBytes}
    (h : x.slice startBound endBound = some v) : v.Sound crc ↔ x.Sound crc := by
  dsimp only [slice] at h
  split at h
  · cases h
    exact Iff.rfl
  · cases h

theorem intoInner_sound (h : x.Sound crc) :
    x.intoInner crc = .ok (x.bufferSlice, crc.checksum x.bufferSlice) := by
  obtain ⟨x', hshrink, hs, hb, -⟩ := shrinkToFit_sound h
  simp only [intoInner, hshrink, bind, Except.bind, pure, Except.pure]
  rw [hs, hb]

theorem intoInner_unsound (h : ¬x.Sound crc) {r : List UInt8 × UInt32}
    (hr : x.intoInner crc = .ok r) : r.2 ≠ crc.checksum r.1 := by
  rcases shrinkToFit_unsound h with ⟨e, he⟩ | ⟨hsame, -⟩
  · simp [intoInner, he, bind, Except.bind] at hr
  · simp only [intoInner, hsame, bind, Except.bind, pure, Except.pure, Except.ok.injEq] at hr
    rw [← hr]
    exact h

/-- `into_inner` gives the bytes of the range. -/
theorem intoInner_fst {r : List UInt8 × UInt32} (h : x.intoInner crc = .ok r) : r.1 = x.bufferSlice := by
  cases hs : x.shrinkToFit crc with
  | error e => simp [intoInner, hs, bind, Except.bind] at h
  | ok x' =>
    simp only [intoInner, hs, bind, Except.bind, pure, Except.pure, Except.ok.injEq] at h
    rw [← h]
    exact buffer_shrinkToFit hs

theorem length_intoInner {r : List UInt8 × UInt32} (h : x.intoInner crc = .ok r) : r.1.length = x.len := by
  rw [intoInner_fst h, length_bufferSlice]

/-- The checksum `into_inner` gives is that of its bytes exactly when the value is sound. -/
theorem intoInner_snd_eq_iff {r : List UInt8 × UInt32} (h : x.intoInner crc = .ok r) :
    r.2 = crc.checksum r.1 ↔ x.Sound crc := by
  constructor
  · intro hr
    by_contra hx
    exact intoInner_unsound hx h hr
  · intro hx
    rw [intoInner_sound hx, Except.ok.injEq] at h
    rw [← h]

end ChecksummedBytes

open ChecksummedBytes

/-! ## Compositions -/

/-- A composition of the operations on checksummed bytes, over inputs numbered from `0`:
each node is one call, on the values its children give. -/
inductive Expr
  | input (i : ℕ)
  /-- What `split_off(idx)` leaves in `self`. -/
  | splitOffPrefix (e : Expr) (idx : ℕ)
  /-- What `split_off(idx)` returns. -/
  | splitOffSuffix (e : Expr) (idx : ℕ)
  | slice (e : Expr) (startBound endBound : RangeBound)
  | shrinkToFit (e : Expr)
  | extend (e₁ e₂ : Expr)

/-- How a composition fails: an `IntegrityError`, or a panic. -/
inductive Failure
  | integrity (e : IntegrityError)
  | panic

/-- The inputs a composition reads, once for each time it reads them. -/
def Expr.leaves : Expr → List ℕ
  | .input i => [i]
  | .splitOffPrefix e _ | .splitOffSuffix e _ | .slice e _ _ | .shrinkToFit e => e.leaves
  | .extend e₁ e₂ => e₁.leaves ++ e₂.leaves

/-- What a composition computes; a failed call ends it. -/
def Expr.eval (inputs : ℕ → ChecksummedBytes) : Expr → Except Failure ChecksummedBytes
  | .input i => pure (inputs i)
  | .splitOffPrefix e idx => do
    match (← e.eval inputs).splitOff idx with
    | some r => pure r.1
    | none => throw .panic
  | .splitOffSuffix e idx => do
    match (← e.eval inputs).splitOff idx with
    | some r => pure r.2
    | none => throw .panic
  | .slice e startBound endBound => do
    match (← e.eval inputs).slice startBound endBound with
    | some v => pure v
    | none => throw .panic
  | .shrinkToFit e => do
    match (← e.eval inputs).shrinkToFit crc with
    | .ok v => pure v
    | .error err => throw (.integrity err)
  | .extend e₁ e₂ => do
    let x ← e₁.eval inputs
    let y ← e₂.eval inputs
    match x.extend crc y with
    | (.ok (), z) => pure z
    | (.error err, _) => throw (.integrity err)

/-- The bytes a composition should hold, from the bytes of its inputs: the operation on
sequences each call stands for, where the call's precondition holds, and `none` where one does
not. The preconditions are the code's assertions: `split_off(at)` needs `at < len`, so
`split_off(len)` panics although its two ranges are defined, and `slice` needs its range within
the bytes; `extend` and `shrink_to_fit` have none. -/
def Expr.expected (contents : ℕ → List UInt8) : Expr → Option (List UInt8)
  | .input i => some (contents i)
  | .splitOffPrefix e idx => do
    let c ← e.expected contents
    if idx < c.length then some (c.take idx) else none
  | .splitOffSuffix e idx => do
    let c ← e.expected contents
    if idx < c.length then some (c.drop idx) else none
  | .slice e startBound endBound => do
    let c ← e.expected contents
    let s := startBound.startOffset
    let t := endBound.endOffset c.length
    if s ≤ t ∧ t ≤ c.length then some ((c.take t).drop s) else none
  | .shrinkToFit e => e.expected contents
  | .extend e₁ e₂ => do
    let c₁ ← e₁.expected contents
    let c₂ ← e₂.expected contents
    pure (c₁ ++ c₂)

/-- An outcome agrees with the expected bytes: a sound value holding them, or a panic where
there are none. -/
def Agrees : Except Failure ChecksummedBytes → Option (List UInt8) → Prop
  | r, some c => ∃ v, r = .ok v ∧ v.Sound crc ∧ v.bufferSlice = c
  | r, none => r = .error .panic

variable {crc} {x y : ChecksummedBytes}

theorem Agrees.bind {r : Except Failure ChecksummedBytes} {c : Option (List UInt8)}
    (h : Agrees crc r c) {f : ChecksummedBytes → Except Failure ChecksummedBytes}
    {g : List UInt8 → Option (List UInt8)}
    (hf : ∀ v, v.Sound crc → Agrees crc (f v) (g v.bufferSlice)) :
    Agrees crc (r >>= f) (c >>= g) := by
  cases c with
  | none =>
    simp only [Agrees] at h
    rw [h]
    rfl
  | some c =>
    obtain ⟨v, rfl, hv, rfl⟩ := h
    exact hf v hv

theorem agrees_splitOff {idx : ℕ} (hx : x.Sound crc) :
    Agrees crc (match x.splitOff idx with | some r => pure r.1 | none => throw .panic)
        (if idx < x.bufferSlice.length then some (x.bufferSlice.take idx) else none) ∧
      Agrees crc (match x.splitOff idx with | some r => pure r.2 | none => throw .panic)
        (if idx < x.bufferSlice.length then some (x.bufferSlice.drop idx) else none) := by
  rw [length_bufferSlice]
  by_cases hidx : idx < x.len
  · obtain ⟨p, s, hsplit, hpb, hpc, hsb, hsc, hp, hs⟩ := splitOff_eq_some hidx
    simp only [hsplit, if_pos hidx]
    exact ⟨⟨p, rfl, (sound_congr hpb hpc).2 hx, hp⟩,
      ⟨s, rfl, (sound_congr hsb hsc).2 hx, hs⟩⟩
  · simp [splitOff_eq_none hidx, hidx, Agrees, throw, throwThe, MonadExceptOf.throw]

theorem agrees_slice {startBound endBound : RangeBound} (hx : x.Sound crc) :
    Agrees crc (match x.slice startBound endBound with | some v => pure v | none => throw .panic)
      (if startBound.startOffset ≤ endBound.endOffset x.bufferSlice.length ∧
          endBound.endOffset x.bufferSlice.length ≤ x.bufferSlice.length then
        some ((x.bufferSlice.take (endBound.endOffset x.bufferSlice.length)).drop
          startBound.startOffset)
      else none) := by
  rw [length_bufferSlice]
  by_cases hb : startBound.startOffset ≤ endBound.endOffset x.len ∧
    endBound.endOffset x.len ≤ x.len
  · obtain ⟨v, hslice, hvb, hvc, hv⟩ := slice_eq_some hb
    simp only [hslice, if_pos hb]
    exact ⟨v, rfl, (sound_congr hvb hvc).2 hx, hv⟩
  · simp [slice_eq_none hb, hb, Agrees, throw, throwThe, MonadExceptOf.throw]

theorem agrees_shrinkToFit (hx : x.Sound crc) :
    Agrees crc
      (match x.shrinkToFit crc with | .ok v => pure v | .error err => throw (.integrity err))
      (some x.bufferSlice) := by
  obtain ⟨x', hshrink, hs, -, -⟩ := shrinkToFit_sound hx
  simp only [hshrink]
  exact ⟨x', rfl, hs, bufferSlice_shrinkToFit hshrink⟩

theorem agrees_extend (hlaw : crc.Lawful) (hx : x.Sound crc) (hy : y.Sound crc) :
    Agrees crc (match x.extend crc y with
        | (.ok (), z) => pure z
        | (.error err, _) => throw (.integrity err))
      (some (x.bufferSlice ++ y.bufferSlice)) := by
  obtain ⟨z, hext, hz, hzc⟩ := extend_sound hlaw hx hy
  simp only [hext]
  exact ⟨z, rfl, hz, hzc⟩

/-- **On sound inputs a composition computes what it should**: a sound value holding the
expected bytes, or a panic where one of its calls panics, and never an integrity error. -/
theorem eval_sound (hlaw : crc.Lawful) (inputs : ℕ → ChecksummedBytes) (e : Expr)
    (h : ∀ i ∈ e.leaves, (inputs i).Sound crc) :
    Agrees crc (e.eval crc inputs) (e.expected fun i => (inputs i).bufferSlice) := by
  induction e with
  | input i => exact ⟨inputs i, rfl, h i (by simp [Expr.leaves]), rfl⟩
  | splitOffPrefix e idx ih =>
    exact (ih h).bind fun v hv => (agrees_splitOff hv).1
  | splitOffSuffix e idx ih =>
    exact (ih h).bind fun v hv => (agrees_splitOff hv).2
  | slice e startBound endBound ih =>
    exact (ih h).bind fun v hv => agrees_slice hv
  | shrinkToFit e ih =>
    have hbind := (ih h).bind fun v hv => agrees_shrinkToFit hv
    rwa [show ∀ c : Option (List UInt8), (c >>= some) = c from fun c => by cases c <;> rfl]
      at hbind
  | extend e₁ e₂ ih₁ ih₂ =>
    simp only [Expr.leaves, List.mem_append] at h
    exact (ih₁ fun i hi => h i (.inl hi)).bind fun x hx =>
      (ih₂ fun i hi => h i (.inr hi)).bind fun y hy => agrees_extend hlaw hx hy

/-- What a composition on sound inputs gives is sound. -/
theorem sound_of_eval (hlaw : crc.Lawful) {inputs : ℕ → ChecksummedBytes} {e : Expr}
    (h : ∀ i ∈ e.leaves, (inputs i).Sound crc) {v : ChecksummedBytes}
    (hv : e.eval crc inputs = .ok v) : v.Sound crc := by
  have hagree := eval_sound hlaw inputs e h
  cases hc : e.expected fun i => (inputs i).bufferSlice with
  | none =>
    rw [hc] at hagree
    rw [hagree] at hv
    cases hv
  | some c =>
    rw [hc] at hagree
    obtain ⟨v', hv', hs, -⟩ := hagree
    rw [hv'] at hv
    cases hv
    exact hs

theorem except_bind_eq_ok {α β ε : Type} {r : Except ε α} {f : α → Except ε β} {b : β}
    (h : (r >>= f) = .ok b) : ∃ a, r = .ok a ∧ f a = .ok b := by
  cases r with
  | error e => cases h
  | ok a => exact ⟨a, rfl, h⟩

/-- The number of reads of an unsound input. -/
def Expr.unsoundReads (crc : Crc) (inputs : ℕ → ChecksummedBytes) (e : Expr) : ℕ :=
  e.leaves.countP fun i => !decide ((inputs i).Sound crc)

theorem unsoundReads_extend {inputs : ℕ → ChecksummedBytes} {e₁ e₂ : Expr} :
    (e₁.extend e₂).unsoundReads crc inputs =
      e₁.unsoundReads crc inputs + e₂.unsoundReads crc inputs := by
  simp [Expr.unsoundReads, Expr.leaves, List.countP_append]

theorem sound_of_unsoundReads_eq_zero {inputs : ℕ → ChecksummedBytes} {e : Expr}
    (h : e.unsoundReads crc inputs = 0) : ∀ i ∈ e.leaves, (inputs i).Sound crc := by
  simpa [Expr.unsoundReads, List.countP_eq_zero] using h

/-- **One unsound read is never laundered**: a composition that reads an unsound input once
and only sound inputs otherwise fails, panics or gives an unsound value, when the combine is
injective in each checksum. -/
theorem eval_unsound (hlaw : crc.Lawful)
    (hinj₁ : ∀ b n, Function.Injective fun a => crc.combine a b n)
    (hinj₂ : ∀ a n, Function.Injective fun b => crc.combine a b n)
    {inputs : ℕ → ChecksummedBytes} {e : Expr} (h : e.unsoundReads crc inputs = 1)
    {v : ChecksummedBytes} (hv : e.eval crc inputs = .ok v) : ¬v.Sound crc := by
  induction e generalizing v with
  | input i =>
    simp only [Expr.unsoundReads, Expr.leaves, List.countP_singleton] at h
    cases hv
    simpa using h
  | splitOffPrefix e idx ih =>
    obtain ⟨x, hx, hsplit⟩ := except_bind_eq_ok hv
    split at hsplit
    · rename_i r hr
      cases hsplit
      exact fun hs => ih h hx ((splitOff_sound_iff hr).1.1 hs)
    · cases hsplit
  | splitOffSuffix e idx ih =>
    obtain ⟨x, hx, hsplit⟩ := except_bind_eq_ok hv
    split at hsplit
    · rename_i r hr
      cases hsplit
      exact fun hs => ih h hx ((splitOff_sound_iff hr).2.1 hs)
    · cases hsplit
  | slice e startBound endBound ih =>
    obtain ⟨x, hx, hslice⟩ := except_bind_eq_ok hv
    split at hslice
    · rename_i w hw
      cases hslice
      exact fun hs => ih h hx ((slice_sound_iff hw).1 hs)
    · cases hslice
  | shrinkToFit e ih =>
    obtain ⟨x, hx, hshrink⟩ := except_bind_eq_ok hv
    have hxu := ih h hx
    split at hshrink
    · rename_i w hw
      cases hshrink
      -- an unsound value is only kept as it is
      rcases shrinkToFit_unsound hxu with ⟨err, herr⟩ | ⟨hsame, -⟩
      · rw [herr] at hw
        cases hw
      · rw [hsame] at hw
        cases hw
        exact hxu
    · cases hshrink
  | extend e₁ e₂ ih₁ ih₂ =>
    obtain ⟨x, hx, hrest⟩ := except_bind_eq_ok hv
    obtain ⟨y, hy, hext⟩ := except_bind_eq_ok hrest
    rw [unsoundReads_extend] at h
    split at hext
    · rename_i z hz
      cases hext
      rcases Nat.eq_zero_or_pos (e₂.unsoundReads crc inputs) with h₂ | h₂
      · -- the unsound read is on the left, and the right side is sound
        have hys : y.Sound crc := sound_of_eval hlaw (sound_of_unsoundReads_eq_zero h₂) hy
        exact extend_unsound_left hlaw hinj₁ (ih₁ (by omega) hx) hys hz
      · have h₁ : e₁.unsoundReads crc inputs = 0 := by omega
        have hxs : x.Sound crc := sound_of_eval hlaw (sound_of_unsoundReads_eq_zero h₁) hx
        exact extend_unsound_right hlaw hinj₂ hxs (ih₂ (by omega) hy) hz
    · cases hext

/-- What checksummed bytes guarantee of a composition: on sound inputs it computes what it
should and its result gives its bytes back; after one unsound read its result does not. -/
structure Integrity (crc : Crc) (inputs : ℕ → ChecksummedBytes) (e : Expr) : Prop where
  sound : (∀ i ∈ e.leaves, (inputs i).Sound crc) →
    Agrees crc (e.eval crc inputs) (e.expected fun i => (inputs i).bufferSlice) ∧
      ∀ v, e.eval crc inputs = .ok v → v.intoBytes crc = .ok v.bufferSlice ∧
        v.intoInner crc = .ok (v.bufferSlice, crc.checksum v.bufferSlice)
  unsound : e.unsoundReads crc inputs = 1 → ∀ v, e.eval crc inputs = .ok v →
    (∃ err, v.intoBytes crc = .error err) ∧
      ∀ r, v.intoInner crc = .ok r → r.2 ≠ crc.checksum r.1

theorem checksummed_bytes_integrity (hlaw : crc.Lawful)
    (hinj₁ : ∀ b n, Function.Injective fun a => crc.combine a b n)
    (hinj₂ : ∀ a n, Function.Injective fun b => crc.combine a b n)
    (inputs : ℕ → ChecksummedBytes) (e : Expr) : Integrity crc inputs e := by
  refine ⟨fun h => ⟨eval_sound hlaw inputs e h, fun v hv => ?_⟩, fun h v hv => ?_⟩
  · have hs := sound_of_eval hlaw h hv
    exact ⟨intoBytes_of_sound hs, intoInner_sound hs⟩
  · have hu := eval_unsound hlaw hinj₁ hinj₂ h hv
    exact ⟨intoBytes_of_not_sound hu, fun r hr => intoInner_unsound hu hr⟩

/-- A checksum with the laws of `Crc.Lawful` and a combine injective in each checksum: the sum
of the bytes, combined by addition. -/
def byteSum : Crc := ⟨fun bytes => (bytes.map UInt8.toUInt32).sum, fun a b _ => a + b⟩

theorem byteSum_lawful : byteSum.Lawful :=
  ⟨fun a b => by simp [byteSum, List.sum_append], rfl⟩

/-- With byte sums: `[4, 5, 6]` under a checksum off by one, extended by a sound `[1, 2, 3]`.
The composition reads one unsound input and succeeds, so its value must not give its bytes back. -/
theorem checksummed_bytes_integrity_byteSum :
    (Expr.extend (.input 0) (.input 1)).unsoundReads byteSum
        (fun i => if i = 0 then newFromInnerData [4, 5, 6] 16 else new byteSum [1, 2, 3]) = 1 ∧
      (∃ v, (Expr.extend (.input 0) (.input 1)).eval byteSum
        (fun i => if i = 0 then newFromInnerData [4, 5, 6] 16 else new byteSum [1, 2, 3]) = .ok v) ∧
      Integrity byteSum (fun i => if i = 0 then newFromInnerData [4, 5, 6] 16 else new byteSum [1, 2, 3])
        (.extend (.input 0) (.input 1)) :=
  ⟨by decide, ⟨_, rfl⟩, checksummed_bytes_integrity byteSum_lawful
    (fun _ _ _ _ h => by simpa [byteSum] using h) (fun _ _ _ _ h => by simpa [byteSum] using h) _ _⟩

/-- **`extend` can launder an unsound value**: when the combine is injective in the prefix
checksum, an unsound one-byte suffix has a prefix whose checksum makes the combined checksum
that of the two bytes, so `extend` succeeds with a sound value. -/
theorem extend_launders_corruption (hinj : ∀ b n, Function.Injective fun a => crc.combine a b n) :
    ∃ x y z : ChecksummedBytes, ¬y.Sound crc ∧ x.extend crc y = (.ok (), z) ∧ z.Sound crc ∧
      z.bufferSlice = x.bufferSlice ++ y.bufferSlice := by
  have hne : crc.checksum [0] + 1 ≠ crc.checksum [0] := by simp
  -- on the finite type of checksums an injective map is onto
  obtain ⟨a, ha⟩ := Finite.injective_iff_surjective.1 (hinj (crc.checksum [0] + 1) 1)
    (crc.checksum [0, 0])
  have hshrink : ∀ c : UInt32,
      (newFromInnerData [0] c).shrinkToFit crc = .ok (newFromInnerData [0] c) :=
    fun _ => if_pos rfl
  refine ⟨newFromInnerData [0] a, newFromInnerData [0] (crc.checksum [0] + 1), _, hne,
    extend_of_shrinkToFit rfl rfl (hshrink _) (hshrink _), ha, rfl⟩

theorem extend_launders_corruption_byteSum :
    ∃ x y z : ChecksummedBytes, ¬y.Sound byteSum ∧ x.extend byteSum y = (.ok (), z) ∧
      z.Sound byteSum ∧ z.bufferSlice = x.bufferSlice ++ y.bufferSlice :=
  extend_launders_corruption (fun _ _ _ _ h => by simpa [byteSum] using h)

/-! ## A checksum that detects every change within four bytes -/

/-- The sum of the little-endian 32-bit words of a string whose first byte is at place `i`: a
byte weighs `256 ^ (i % 4)`. -/
def wordSumFrom : ℕ → List UInt8 → ℕ
  | _, [] => 0
  | i, b :: bs => b.toNat * 256 ^ (i % 4) + wordSumFrom (i + 1) bs

theorem wordSumFrom_append (i : ℕ) (a b : List UInt8) :
    wordSumFrom i (a ++ b) = wordSumFrom i a + wordSumFrom (i + a.length) b := by
  induction a generalizing i with
  | nil => simp [wordSumFrom]
  | cons x a ih => simp [wordSumFrom, ih, Nat.add_assoc, Nat.add_comm 1]

/-- Four bytes at the same place weigh by the four places of a word, so their sum, below
`2 ^ 32`, determines them. -/
theorem eq_of_wordSumFrom_mod_eq (i : ℕ) {b c : List UInt8} (hb : b.length = 4)
    (hc : c.length = 4) (h : wordSumFrom i b % 2 ^ 32 = wordSumFrom i c % 2 ^ 32) : b = c := by
  match b, c, hb, hc with
  | [b₀, b₁, b₂, b₃], [c₀, c₁, c₂, c₃], _, _ =>
    have hb : b₀.toNat < 256 ∧ b₁.toNat < 256 ∧ b₂.toNat < 256 ∧ b₃.toNat < 256 :=
      ⟨b₀.toNat_lt, b₁.toNat_lt, b₂.toNat_lt, b₃.toNat_lt⟩
    have hc : c₀.toNat < 256 ∧ c₁.toNat < 256 ∧ c₂.toNat < 256 ∧ c₃.toNat < 256 :=
      ⟨c₀.toNat_lt, c₁.toNat_lt, c₂.toNat_lt, c₃.toNat_lt⟩
    -- the places of the four bytes are those of one word, rotated by `i % 4`
    have h₁ : (i + 1) % 4 = (i % 4 + 1) % 4 := by omega
    have h₂ : (i + 1 + 1) % 4 = (i % 4 + 2) % 4 := by omega
    have h₃ : (i + 1 + 1 + 1) % 4 = (i % 4 + 3) % 4 := by omega
    simp only [wordSumFrom, h₁, h₂, h₃] at h
    obtain h₄ | h₄ | h₄ | h₄ : i % 4 = 0 ∨ i % 4 = 1 ∨ i % 4 = 2 ∨ i % 4 = 3 := by omega
    all_goals
      rw [h₄] at h
      norm_num at h
      simp only [List.cons.injEq, ← UInt8.toNat_inj, and_true]
      omega

/-- The sum of a string's 32-bit words, modulo `2 ^ 32`. Its combine adds, which is right only
after a prefix of whole words. -/
def wordSum : Crc := ⟨fun bytes => UInt32.ofNat (wordSumFrom 0 bytes), fun a b _ => a + b⟩

/-- The bytes of a change within four bytes take four different places of a word, so the change
moves the sum by less than `2 ^ 32`, and not by nothing. -/
theorem wordSum_detectsWordChange : wordSum.DetectsWordChange := by
  intro a b c d hb hc hne h
  have h' := congrArg UInt32.toNat h
  simp only [wordSum, UInt32.toNat_ofNat', wordSumFrom_append, List.length_append, hb, hc,
    Nat.zero_add] at h'
  exact hne (eq_of_wordSumFrom_mod_eq a.length hb hc (by omega))

end MountpointS3.Checksums
