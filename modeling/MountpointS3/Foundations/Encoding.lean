import Mathlib

/-!
# Text encodings of numbers and bytes

The renderings a program uses to put numbers and bytes into text that is safe in a header or a
key, with the parsers that read them back:

* `Decimal.parse`: `FromStr` of an unsigned integer type, an optional `+` and then decimal digits
  of a value in range; `parse_repr`, `parseU64_toString`, `parseU32_toString`: it reads back
  what `Display` (`Nat.repr`) writes;
* `Decimal.padZeros`: `Display` with a zero-filled width, `format!("{:010}", n)`;
* `hexEncode`: lowercase hexadecimal, two digits a byte;
* `Base64.encode`, `Base64.decode`: RFC 4648 base64 with the standard alphabet and `=` padding,
  the decoder strict (padding only at the end, unused bits zero); `decode_encode` is the round
  trip and `encodeString_injective` follows from it.
-/

namespace MountpointS3.Foundations

namespace Decimal

/-- The characters after a leading `+`, if there is one. -/
def stripPlus : List Char → List Char
  | '+' :: rest => rest
  | l => l

/-- `FromStr::from_str` of an unsigned integer type whose values are the numbers below `bound`:
an optional `+`, then one or more ASCII digits, of a value below `bound`; `none` for its errors. -/
def parse (bound : ℕ) (s : String) : Option ℕ :=
  let digits := stripPlus s.toList
  if digits ≠ [] ∧ digits.all Char.isDigit = true then
    let n := Nat.ofDigitChars 10 digits 0
    if n < bound then some n else none
  else none

/-- `u64::from_str`. -/
def parseU64 (s : String) : Option UInt64 := (parse UInt64.size s).map UInt64.ofNat

/-- `u32::from_str`. -/
def parseU32 (s : String) : Option UInt32 := (parse UInt32.size s).map UInt32.ofNat

/-- `format!("{:0w}", n)` for an unsigned `n`: its digits, filled with zeros on the left to `w`
characters. -/
def padZeros (w n : ℕ) : String :=
  String.ofList (List.replicate (w - (Nat.toDigits 10 n).length) '0' ++ Nat.toDigits 10 n)

theorem stripPlus_of_all_isDigit {l : List Char} (h : l.all Char.isDigit = true) :
    stripPlus l = l := by
  match l, h with
  | [], _ => rfl
  | c :: rest, h =>
    have hc : c ≠ '+' := by
      rintro rfl
      simp at h
    simp [stripPlus, hc]

theorem all_isDigit_toDigits (n : ℕ) : (Nat.toDigits 10 n).all Char.isDigit = true :=
  List.all_eq_true.2 fun _ hc => Nat.isDigit_of_mem_toDigits (by decide) (by decide) hc

/-- `from_str` reads back the decimal digits of every value in range. -/
theorem parse_repr {bound n : ℕ} (h : n < bound) : parse bound (Nat.repr n) = some n := by
  have hdigits := all_isDigit_toDigits n
  simp only [parse, Nat.toList_repr, stripPlus_of_all_isDigit hdigits]
  simp [Nat.toDigits_ne_nil, hdigits, h]

theorem parseU64_toString (x : UInt64) : parseU64 (toString x) = some x := by
  simp only [parseU64, show toString x = Nat.repr x.toNat from rfl, parse_repr x.toNat_lt_size,
    Option.map_some, UInt64.ofNat_toNat]

theorem parseU32_toString (x : UInt32) : parseU32 (toString x) = some x := by
  simp only [parseU32, show toString x = Nat.repr x.toNat from rfl, parse_repr x.toNat_lt_size,
    Option.map_some, UInt32.ofNat_toNat]

end Decimal

/-- `hex::encode`: two lowercase hexadecimal digits a byte. -/
def hexEncode (bytes : List UInt8) : String :=
  String.ofList (bytes.flatMap fun b => [Nat.digitChar (b.toNat / 16), Nat.digitChar (b.toNat % 16)])

namespace Base64

/-- The standard alphabet of RFC 4648. -/
def alphabet : List Char :=
  ['A', 'B', 'C', 'D', 'E', 'F', 'G', 'H', 'I', 'J', 'K', 'L', 'M', 'N', 'O', 'P', 'Q', 'R', 'S',
    'T', 'U', 'V', 'W', 'X', 'Y', 'Z', 'a', 'b', 'c', 'd', 'e', 'f', 'g', 'h', 'i', 'j', 'k', 'l',
    'm', 'n', 'o', 'p', 'q', 'r', 's', 't', 'u', 'v', 'w', 'x', 'y', 'z', '0', '1', '2', '3', '4',
    '5', '6', '7', '8', '9', '+', '/']

/-- The character of a six-bit value. -/
def sextetChar (n : ℕ) : Char := alphabet.getD n '='

/-- The six-bit value of a character of the alphabet. -/
def sextetValue (c : Char) : Option ℕ := alphabet.idxOf? c

/-- The standard encoding with `=` padding, three bytes to four characters. -/
def encode : List UInt8 → List Char
  | [] => []
  | [a] => [sextetChar (a.toNat / 4), sextetChar (a.toNat % 4 * 16), '=', '=']
  | [a, b] =>
    [sextetChar (a.toNat / 4), sextetChar (a.toNat % 4 * 16 + b.toNat / 16),
      sextetChar (b.toNat % 16 * 4), '=']
  | a :: b :: c :: rest =>
    sextetChar (a.toNat / 4) :: sextetChar (a.toNat % 4 * 16 + b.toNat / 16) ::
      sextetChar (b.toNat % 16 * 4 + c.toNat / 64) :: sextetChar (c.toNat % 64) :: encode rest

/-- `Base64::encode_string`. -/
def encodeString (bytes : List UInt8) : String := String.ofList (encode bytes)

/-- `Base64::decode`: four characters to three bytes, a last group of `xx==` or `xxx=` to one or
two bytes; `none` for a character outside the alphabet, padding anywhere else, unused bits that
are not zero, or a length that is not a multiple of four. -/
def decode : List Char → Option (List UInt8)
  | [] => some []
  | c0 :: c1 :: c2 :: c3 :: rest => do
    let v0 ← sextetValue c0
    let v1 ← sextetValue c1
    let b0 := UInt8.ofNat (v0 * 4 + v1 / 16)
    if rest = [] ∧ c2 = '=' ∧ c3 = '=' then
      if v1 % 16 = 0 then some [b0] else none
    else
      let v2 ← sextetValue c2
      let b1 := UInt8.ofNat (v1 % 16 * 16 + v2 / 4)
      if rest = [] ∧ c3 = '=' then
        if v2 % 4 = 0 then some [b0, b1] else none
      else
        let v3 ← sextetValue c3
        let bytes ← decode rest
        some (b0 :: b1 :: UInt8.ofNat (v2 % 4 * 64 + v3) :: bytes)
  | _ => none

theorem sextetValue_sextetChar : ∀ n < 64, sextetValue (sextetChar n) = some n := by
  decide +kernel

theorem sextetValue_pad : sextetValue '=' = none := by
  decide

theorem sextetChar_ne_pad {n : ℕ} (h : n < 64) : sextetChar n ≠ '=' := by
  intro heq
  have := sextetValue_sextetChar n h
  rw [heq, sextetValue_pad] at this
  cases this

/-- Each case reads the group's sextets back with `sextetValue_sextetChar`, finds no padding where
there is none with `sextetChar_ne_pad`, and gets each byte back from its two sextets by `omega`. -/
theorem decode_encode (bytes : List UInt8) : decode (encode bytes) = some bytes := by
  induction bytes using encode.induct with
  | case1 => rfl
  | case2 a =>
    have ha := a.toNat_lt
    simp only [encode, decode, sextetValue_sextetChar _ (by omega : a.toNat / 4 < 64),
      sextetValue_sextetChar _ (by omega : a.toNat % 4 * 16 < 64), Option.bind_eq_bind,
      Option.bind_some, and_self, if_true]
    rw [if_pos (by omega), show a.toNat / 4 * 4 + a.toNat % 4 * 16 / 16 = a.toNat by omega,
      UInt8.ofNat_toNat]
  | case3 a b =>
    have ha := a.toNat_lt
    have hb := b.toNat_lt
    simp only [encode, decode, sextetValue_sextetChar _ (by omega : a.toNat / 4 < 64),
      sextetValue_sextetChar _ (by omega : a.toNat % 4 * 16 + b.toNat / 16 < 64),
      sextetValue_sextetChar _ (by omega : b.toNat % 16 * 4 < 64), Option.bind_eq_bind,
      Option.bind_some, sextetChar_ne_pad (by omega : b.toNat % 16 * 4 < 64), false_and,
      and_false, and_self, if_true, if_false]
    rw [if_pos (by omega),
      show a.toNat / 4 * 4 + (a.toNat % 4 * 16 + b.toNat / 16) / 16 = a.toNat by omega,
      show (a.toNat % 4 * 16 + b.toNat / 16) % 16 * 16 + b.toNat % 16 * 4 / 4 = b.toNat by omega,
      UInt8.ofNat_toNat, UInt8.ofNat_toNat]
  | case4 a b c rest ih =>
    have ha := a.toNat_lt
    have hb := b.toNat_lt
    have hc := c.toNat_lt
    simp only [encode, decode, sextetValue_sextetChar _ (by omega : a.toNat / 4 < 64),
      sextetValue_sextetChar _ (by omega : a.toNat % 4 * 16 + b.toNat / 16 < 64),
      sextetValue_sextetChar _ (by omega : b.toNat % 16 * 4 + c.toNat / 64 < 64),
      sextetValue_sextetChar _ (by omega : c.toNat % 64 < 64), ih, Option.bind_eq_bind,
      Option.bind_some, sextetChar_ne_pad (by omega : c.toNat % 64 < 64), and_false, if_false]
    rw [show a.toNat / 4 * 4 + (a.toNat % 4 * 16 + b.toNat / 16) / 16 = a.toNat by omega,
      show (a.toNat % 4 * 16 + b.toNat / 16) % 16 * 16 + (b.toNat % 16 * 4 + c.toNat / 64) / 4 =
        b.toNat by omega,
      show (b.toNat % 16 * 4 + c.toNat / 64) % 4 * 64 + c.toNat % 64 = c.toNat by omega,
      UInt8.ofNat_toNat, UInt8.ofNat_toNat, UInt8.ofNat_toNat]

theorem encode_injective : Function.Injective encode := fun x y h => by
  simpa [decode_encode] using congrArg decode h

theorem encodeString_injective : Function.Injective encodeString := fun _ _ h =>
  encode_injective (String.ofList_injective h)

end Base64

end MountpointS3.Foundations
