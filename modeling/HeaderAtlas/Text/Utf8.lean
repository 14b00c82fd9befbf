import HeaderAtlas.Text.Blank

/-!
# Reading UTF-8 that may be damaged

A file is a list of bytes and need not be valid UTF-8. Decoding never fails:
each maximal invalid stretch, that is, the longest stretch that some valid
encoding starts with, or a single byte when there is none, reads as one
U+FFFD.
-/

namespace HeaderAtlas.Text

/-- What stands in for bytes that encode nothing. -/
def replacement : Char := '\uFFFD'

/-- How many continuation bytes a lead byte asks for, the range its first
continuation byte must lie in, and the bits it contributes. The narrowed ranges
keep out overlong forms, surrogates and values past U+10FFFF. -/
def leadByte (b : Nat) : Option (Nat × Nat × Nat × Nat) :=
  if 0xC2 ≤ b ∧ b ≤ 0xDF then some (1, 0x80, 0xBF, b - 0xC0)
  else if b = 0xE0 then some (2, 0xA0, 0xBF, 0)
  else if b = 0xED then some (2, 0x80, 0x9F, 0x0D)
  else if 0xE1 ≤ b ∧ b ≤ 0xEF then some (2, 0x80, 0xBF, b - 0xE0)
  else if b = 0xF0 then some (3, 0x90, 0xBF, 0)
  else if b = 0xF4 then some (3, 0x80, 0x8F, 4)
  else if 0xF1 ≤ b ∧ b ≤ 0xF3 then some (3, 0x80, 0xBF, b - 0xF0)
  else none

/-- Reads `n` continuation bytes into `acc`, the next of which must lie between
`lo` and `hi`. Stops at the first byte that cannot continue, which is not
consumed. -/
def continuation (n lo hi acc : Nat) (bytes : List UInt8) : Char × List UInt8 :=
  match n, bytes with
  | 0, bytes => (Char.ofNat acc, bytes)
  | _ + 1, [] => (replacement, [])
  | n + 1, b :: rest =>
    if lo ≤ b.toNat ∧ b.toNat ≤ hi then
      continuation n 0x80 0xBF (acc * 64 + (b.toNat - 0x80)) rest
    else (replacement, b :: rest)

/-- One character off the front of the bytes that follow `b`. -/
def decodeChar (b : UInt8) (rest : List UInt8) : Char × List UInt8 :=
  if b.toNat < 0x80 then (Char.ofNat b.toNat, rest)
  else match leadByte b.toNat with
    | none => (replacement, rest)
    | some (n, lo, hi, acc) => continuation n lo hi acc rest

theorem continuation_length_le (n lo hi acc : Nat) (bytes : List UInt8) :
    (continuation n lo hi acc bytes).2.length ≤ bytes.length := by
  fun_induction continuation n lo hi acc bytes with
  | case1 => simp
  | case2 => simp
  | case3 lo hi acc n b rest h ih => simp only [List.length_cons]; omega
  | case4 => simp

/-- A character takes no bytes that are not there. -/
theorem decodeChar_length_le (b : UInt8) (rest : List UInt8) :
    (decodeChar b rest).2.length ≤ rest.length := by
  unfold decodeChar
  split
  · simp
  · split
    · simp
    · exact continuation_length_le ..

/-- The characters the bytes encode, in reverse, in front of `acc`. -/
def decodeOnto (acc : List Char) : List UInt8 → List Char
  | [] => acc
  | b :: rest =>
    have := decodeChar_length_le b rest
    decodeOnto ((decodeChar b rest).1 :: acc) (decodeChar b rest).2
termination_by bytes => bytes.length

/-- The characters that the bytes encode. -/
def decode (bytes : List UInt8) : List Char := (decodeOnto [] bytes).reverse

/-- The bytes between line feeds; a line feed at the very end starts no line. -/
def byteLines (bytes : List UInt8) : List (List UInt8) :=
  let pieces := pieces (· == 0x0A) bytes
  if pieces.getLast? = some [] then pieces.dropLast else pieces

/-- Is the whole byte string valid UTF-8? Then it decodes to the result. -/
def decodeExact? (bytes : List UInt8) : Option String :=
  String.fromUTF8? (ByteArray.mk bytes.toArray)

end HeaderAtlas.Text
