import Mathlib

/-!
# Parts of an object

`prefetch/part.rs`: a `Part` is a run of bytes of one object at an offset. The object id, the
checksum and the source of a part are left out; the prefetcher's parts of one stream all
belong to one object.

A list of parts is `Contiguous` from an offset when each starts where the one before it ends;
`contiguous_append` and `contiguous_splitOff` are the two rules the window's proofs use, and
`bytes` is what the parts hold, one after the other.
-/

namespace MountpointS3.Prefetch

/-- `Part`, by its offset in the object and its bytes. -/
structure Part where
  offset : ℕ
  data : List UInt8
  deriving DecidableEq, Repr

namespace Part

/-- `Part::len`. -/
def len (p : Part) : ℕ := p.data.length

/-- `Part::split_off`: the part keeps `[0, idx)` and the returned part holds `[idx, len)`.
Given as the pair (kept, returned); the source panics past the end, which no caller reaches. -/
def splitOff (p : Part) (idx : ℕ) : Part × Part :=
  (⟨p.offset, p.data.take idx⟩, ⟨p.offset + idx, p.data.drop idx⟩)

variable (p : Part) {idx : ℕ}

@[simp] theorem splitOff_fst_offset : (p.splitOff idx).1.offset = p.offset := rfl

@[simp] theorem splitOff_snd_offset : (p.splitOff idx).2.offset = p.offset + idx := rfl

theorem splitOff_fst_len (h : idx ≤ p.len) : (p.splitOff idx).1.len = idx := by
  simp only [splitOff, len, List.length_take] at h ⊢
  omega

@[simp] theorem splitOff_snd_len : (p.splitOff idx).2.len = p.len - idx := by
  simp [splitOff, len]

@[simp] theorem splitOff_data : (p.splitOff idx).1.data ++ (p.splitOff idx).2.data = p.data :=
  List.take_append_drop idx p.data

end Part

/-- The sum of the lengths of the parts. -/
def totalLen (ps : List Part) : ℕ := (ps.map Part.len).sum

/-- The bytes of the parts, one after the other. -/
def bytes (ps : List Part) : List UInt8 := ps.flatMap Part.data

@[simp] theorem totalLen_nil : totalLen [] = 0 := rfl

@[simp] theorem totalLen_cons (p : Part) (ps : List Part) :
    totalLen (p :: ps) = p.len + totalLen ps := by
  simp [totalLen]

@[simp] theorem totalLen_append (ps qs : List Part) :
    totalLen (ps ++ qs) = totalLen ps + totalLen qs := by
  simp [totalLen]

@[simp] theorem totalLen_reverse (ps : List Part) : totalLen ps.reverse = totalLen ps := by
  simp [totalLen]

@[simp] theorem bytes_nil : bytes [] = [] := rfl

@[simp] theorem bytes_cons (p : Part) (ps : List Part) : bytes (p :: ps) = p.data ++ bytes ps := by
  simp [bytes]

@[simp] theorem bytes_append (ps qs : List Part) : bytes (ps ++ qs) = bytes ps ++ bytes qs := by
  simp [bytes]

@[simp] theorem length_bytes (ps : List Part) : (bytes ps).length = totalLen ps := by
  induction ps with
  | nil => rfl
  | cons p ps ih => simp [ih, Part.len]

/-- The parts lie one after the other from `start`. -/
def Contiguous : ℕ → List Part → Prop
  | _, [] => True
  | start, p :: ps => p.offset = start ∧ Contiguous (start + p.len) ps

@[simp] theorem contiguous_nil (start : ℕ) : Contiguous start [] := trivial

@[simp] theorem contiguous_cons {start : ℕ} {p : Part} {ps : List Part} :
    Contiguous start (p :: ps) ↔ p.offset = start ∧ Contiguous (start + p.len) ps := Iff.rfl

theorem contiguous_append {start : ℕ} {ps qs : List Part} :
    Contiguous start (ps ++ qs) ↔
      Contiguous start ps ∧ Contiguous (start + totalLen ps) qs := by
  induction ps generalizing start with
  | nil => simp
  | cons p ps ih => simp [ih, and_assoc, Nat.add_assoc]

/-- Splitting a part in place keeps the parts contiguous. -/
theorem contiguous_splitOff {start idx : ℕ} {ps qs : List Part} {p : Part} (h : idx ≤ p.len) :
    Contiguous start (ps ++ p :: qs) ↔
      Contiguous start (ps ++ (p.splitOff idx).1 :: (p.splitOff idx).2 :: qs) := by
  rw [contiguous_append, contiguous_append]
  simp only [contiguous_cons, Part.splitOff_fst_offset, Part.splitOff_snd_offset,
    Part.splitOff_fst_len p h, Part.splitOff_snd_len]
  -- the two pieces end where the part ended
  have hend : start + totalLen ps + idx + (p.len - idx) = start + totalLen ps + p.len := by omega
  constructor
  · rintro ⟨hps, hp, hqs⟩
    exact ⟨hps, hp, by omega, hend ▸ hqs⟩
  · rintro ⟨hps, hp, -, hqs⟩
    exact ⟨hps, hp, hend ▸ hqs⟩

end MountpointS3.Prefetch
