import Mathlib
import MountpointS3.Foundations.Prog

/-!
# Fixed-width integers as bytes, and bincode's fixed-int decoder

`leBytes w n` is the `w`-byte little-endian encoding of `n` modulo `256 ^ w` (`to_le_bytes`),
`beBytes` the big-endian one (`to_be_bytes`), and `ofLeBytes` reads a little-endian number back.

bincode's configuration with fixed-int little-endian encoding and a byte limit writes an integer
as its bytes and a string as its length (a `u64`) followed by its UTF-8 bytes. Its decoder runs
on a `Reader`, the bytes left and the bytes claimed so far: every read first claims its length
against the limit (`LimitExceeded` past it), then takes the bytes (an I/O error at the end of the
input); a string's bytes must be valid UTF-8.

* `ofLeBytes_leBytes`, `leBytes_injective`, `beBytes_injective`: the encodings read back, and
  are injective below `256 ^ w`;
* `exec_decodeU64`, `exec_decodeU32`, `exec_decodeStr`: decoding an encoding within the limit
  gives the value back and consumes exactly its bytes; `exec_decodeFixed_of_lt`,
  `exec_decodeStr_of_lt`: past the limit it fails with `LimitExceeded`.
-/

namespace MountpointS3.Foundations

/-- The `w` little-endian bytes of `n`, modulo `256 ^ w`. -/
def leBytes : ℕ → ℕ → List UInt8
  | 0, _ => []
  | w + 1, n => UInt8.ofNat n :: leBytes w (n / 256)

/-- The number that little-endian bytes stand for. -/
def ofLeBytes : List UInt8 → ℕ
  | [] => 0
  | b :: bs => b.toNat + 256 * ofLeBytes bs

/-- The `w` big-endian bytes of `n`, modulo `256 ^ w`. -/
def beBytes (w n : ℕ) : List UInt8 := (leBytes w n).reverse

/-- The UTF-8 bytes of a string, `str::as_bytes`. -/
def utf8Bytes (s : String) : List UInt8 := s.toUTF8.data.toList

@[simp] theorem length_leBytes (w n : ℕ) : (leBytes w n).length = w := by
  induction w generalizing n with
  | zero => rfl
  | succ w ih => simp [leBytes, ih]

@[simp] theorem length_beBytes (w n : ℕ) : (beBytes w n).length = w := by
  simp [beBytes]

@[simp] theorem length_utf8Bytes (s : String) : (utf8Bytes s).length = s.utf8ByteSize := by
  rw [utf8Bytes, Array.length_toList]
  exact String.size_toByteArray

theorem ofLeBytes_leBytes (w n : ℕ) : ofLeBytes (leBytes w n) = n % 256 ^ w := by
  induction w generalizing n with
  | zero => simp [leBytes, ofLeBytes, Nat.mod_one]
  | succ w ih =>
    rw [leBytes, ofLeBytes, ih, Nat.pow_succ', Nat.mod_mul, UInt8.toNat_ofNat']

theorem leBytes_injective {w m n : ℕ} (hm : m < 256 ^ w) (hn : n < 256 ^ w)
    (h : leBytes w m = leBytes w n) : m = n := by
  have := congrArg ofLeBytes h
  rwa [ofLeBytes_leBytes, ofLeBytes_leBytes, Nat.mod_eq_of_lt hm, Nat.mod_eq_of_lt hn] at this

theorem beBytes_injective {w m n : ℕ} (hm : m < 256 ^ w) (hn : n < 256 ^ w)
    (h : beBytes w m = beBytes w n) : m = n :=
  leBytes_injective hm hn (List.reverse_injective h)

theorem utf8Bytes_injective {s t : String} (h : utf8Bytes s = utf8Bytes t) : s = t := by
  have hdata : s.toUTF8.data = t.toUTF8.data := Array.toList_inj.1 h
  rw [← String.toByteArray_inj, ← String.toUTF8_eq_toByteArray, ← String.toUTF8_eq_toByteArray]
  exact ByteArray.ext hdata

theorem fromUTF8?_utf8Bytes (s : String) : String.fromUTF8? ⟨(utf8Bytes s).toArray⟩ = some s := by
  simp only [utf8Bytes, Array.toArray_toList, String.fromUTF8?, String.toUTF8_eq_toByteArray,
    dif_pos s.isValidUTF8]
  rfl

namespace Bincode

/-- `bincode::error::DecodeError`, by the cases its callers tell apart. -/
inductive DecodeError
  | io
  | limitExceeded
  | utf8
  deriving DecidableEq, Repr

/-- What the decoder reads from, and the bytes it has claimed against the limit. -/
structure Reader where
  rest : List UInt8
  bytesRead : ℕ

/-- A decoder: a program on the reader that may fail with a `DecodeError`. -/
abbrev Decoder (α : Type) := Prog Reader DecodeError α

open Prog

variable (limit : ℕ)

/-- `Decoder::claim_bytes_read` under the limit. -/
def claimBytesRead (n : ℕ) : Decoder Unit := do
  let r ← get
  if limit < r.bytesRead + n then throw .limitExceeded
  modify fun r => { r with bytesRead := r.bytesRead + n }

/-- `Reader::read` of `n` bytes, which is `read_exact`: it fails at the end of the input. -/
def readBytes (n : ℕ) : Decoder (List UInt8) := do
  let r ← get
  if r.rest.length < n then throw .io
  modify fun r => { r with rest := r.rest.drop n }
  pure (r.rest.take n)

/-- The decode of a fixed-width little-endian integer of `w` bytes. -/
def decodeFixed (w : ℕ) : Decoder ℕ := do
  claimBytesRead limit w
  let bytes ← readBytes w
  pure (ofLeBytes bytes)

/-- `u64::decode`. -/
def decodeU64 : Decoder UInt64 := do
  let n ← decodeFixed limit 8
  pure (UInt64.ofNat n)

/-- `u32::decode`. -/
def decodeU32 : Decoder UInt32 := do
  let n ← decodeFixed limit 4
  pure (UInt32.ofNat n)

/-- `String::decode`: the length, then as many bytes, which must be UTF-8. -/
def decodeStr : Decoder String := do
  let len ← decodeU64 limit
  claimBytesRead limit len.toNat
  let bytes ← readBytes len.toNat
  match String.fromUTF8? ⟨bytes.toArray⟩ with
  | some s => pure s
  | none => throw .utf8

/-- `u64::encode`. -/
def encodeU64 (x : UInt64) : List UInt8 := leBytes 8 x.toNat

/-- `u32::encode`. -/
def encodeU32 (x : UInt32) : List UInt8 := leBytes 4 x.toNat

/-- `String::encode`. -/
def encodeStr (s : String) : List UInt8 := encodeU64 (UInt64.ofNat s.utf8ByteSize) ++ utf8Bytes s

@[simp] theorem length_encodeU64 (x : UInt64) : (encodeU64 x).length = 8 := length_leBytes _ _

@[simp] theorem length_encodeU32 (x : UInt32) : (encodeU32 x).length = 4 := length_leBytes _ _

@[simp] theorem length_encodeStr (s : String) : (encodeStr s).length = 8 + s.utf8ByteSize := by
  simp [encodeStr]

/-! ### Decoding an encoding -/

variable {limit}

theorem exec_claimBytesRead {r : Reader} {n : ℕ} (h : r.bytesRead + n ≤ limit) :
    (claimBytesRead limit n).exec r = (.ok (), { r with bytesRead := r.bytesRead + n }) := by
  simp [claimBytesRead, exec_bind, Nat.not_lt.2 h]

theorem exec_claimBytesRead_of_lt {r : Reader} {n : ℕ} (h : limit < r.bytesRead + n) :
    (claimBytesRead limit n).exec r = (.error .limitExceeded, r) := by
  simp [claimBytesRead, exec_bind, h]

theorem exec_readBytes {bytes rest : List UInt8} {k n : ℕ} (h : bytes.length = n) :
    (readBytes n).exec ⟨bytes ++ rest, k⟩ = (.ok bytes, ⟨rest, k⟩) := by
  subst h
  simp only [readBytes, exec_bind, exec_get, List.length_append]
  rw [if_neg (by omega)]
  simp only [exec_modify_bind, exec_pure, List.drop_left, List.take_left]

theorem exec_decodeFixed {w n k : ℕ} {rest : List UInt8} (h : k + w ≤ limit) :
    (decodeFixed limit w).exec ⟨leBytes w n ++ rest, k⟩ = (.ok (n % 256 ^ w), ⟨rest, k + w⟩) := by
  rw [decodeFixed, exec_bind_of_ok (exec_claimBytesRead h),
    exec_bind_of_ok (exec_readBytes (length_leBytes w n)), exec_pure, ofLeBytes_leBytes]

theorem exec_decodeU64 {x : UInt64} {k : ℕ} {rest : List UInt8} (h : k + 8 ≤ limit) :
    (decodeU64 limit).exec ⟨encodeU64 x ++ rest, k⟩ = (.ok x, ⟨rest, k + 8⟩) := by
  rw [decodeU64, encodeU64, exec_bind_of_ok (exec_decodeFixed h), exec_pure,
    Nat.mod_eq_of_lt (by simpa using x.toNat_lt), UInt64.ofNat_toNat]

theorem exec_decodeU32 {x : UInt32} {k : ℕ} {rest : List UInt8} (h : k + 4 ≤ limit) :
    (decodeU32 limit).exec ⟨encodeU32 x ++ rest, k⟩ = (.ok x, ⟨rest, k + 4⟩) := by
  rw [decodeU32, encodeU32, exec_bind_of_ok (exec_decodeFixed h), exec_pure,
    Nat.mod_eq_of_lt (by simpa using x.toNat_lt), UInt32.ofNat_toNat]

theorem exec_decodeStr {s : String} {k : ℕ} {rest : List UInt8} (h : k + 8 + s.utf8ByteSize ≤ limit)
    (hs : s.utf8ByteSize < 2 ^ 64) :
    (decodeStr limit).exec ⟨encodeStr s ++ rest, k⟩ = (.ok s, ⟨rest, k + 8 + s.utf8ByteSize⟩) := by
  have hlen : (UInt64.ofNat s.utf8ByteSize).toNat = s.utf8ByteSize := by
    rw [UInt64.toNat_ofNat_of_lt' hs]
  rw [decodeStr, encodeStr, List.append_assoc, exec_bind_of_ok (exec_decodeU64 (by omega)), hlen,
    exec_bind_of_ok (exec_claimBytesRead h), exec_bind_of_ok (exec_readBytes (length_utf8Bytes s)),
    fromUTF8?_utf8Bytes]
  rfl

/-! ### Past the limit -/

theorem exec_decodeFixed_of_lt {w : ℕ} {r : Reader} (h : limit < r.bytesRead + w) :
    (decodeFixed limit w).exec r = (.error .limitExceeded, r) := by
  rw [decodeFixed, exec_bind_of_error (exec_claimBytesRead_of_lt h)]

theorem exec_decodeU64_of_lt {r : Reader} (h : limit < r.bytesRead + 8) :
    (decodeU64 limit).exec r = (.error .limitExceeded, r) := by
  rw [decodeU64, exec_bind_of_error (exec_decodeFixed_of_lt h)]

theorem exec_decodeU32_of_lt {r : Reader} (h : limit < r.bytesRead + 4) :
    (decodeU32 limit).exec r = (.error .limitExceeded, r) := by
  rw [decodeU32, exec_bind_of_error (exec_decodeFixed_of_lt h)]

/-- A string whose bytes go past the limit fails, at its length or at its bytes. -/
theorem exec_decodeStr_of_lt {s : String} {k : ℕ} {rest : List UInt8}
    (h : limit < k + 8 + s.utf8ByteSize) (hs : s.utf8ByteSize < 2 ^ 64) :
    ∃ r, (decodeStr limit).exec ⟨encodeStr s ++ rest, k⟩ = (.error .limitExceeded, r) := by
  by_cases hlen : limit < k + 8
  · exact ⟨_, by rw [decodeStr, exec_bind_of_error (exec_decodeU64_of_lt (r := ⟨encodeStr s ++ rest, k⟩) hlen)]⟩
  · have hlen' : (UInt64.ofNat s.utf8ByteSize).toNat = s.utf8ByteSize := by
      rw [UInt64.toNat_ofNat_of_lt' hs]
    exact ⟨_, by rw [decodeStr, encodeStr, List.append_assoc, exec_bind_of_ok (exec_decodeU64 (by omega)),
      hlen', exec_bind_of_error (exec_claimBytesRead_of_lt h)]⟩

end Bincode

end MountpointS3.Foundations
