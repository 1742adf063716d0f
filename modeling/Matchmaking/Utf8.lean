/-!
# Bytes as text

Bytes that are no UTF-8 text are shown as the text they come closest to.  Going
from left to right, a well-formed sequence is its character.  Of an ill-formed
one the longest part that could begin a character is shown as one replacement
character, at least one byte.
-/

namespace Matchmaking

namespace Utf8

/-- Stands for bytes that are no character. -/
def replacement : Char := '\uFFFD'

/-- What a first byte says of its sequence. -/
structure Lead where
  /-- The bits of the character in the first byte. -/
  bits : Nat
  /-- The number of bytes that follow. -/
  count : Nat
  /-- The least second byte. -/
  low : UInt8
  /-- The greatest second byte. -/
  high : UInt8

/-- The sequences that a byte can start.  The bounds of the second byte keep out
longer forms than needed, halves of characters and codes past the last one. -/
def lead? (b : UInt8) : Option Lead :=
  let bits := b.toNat
  if b < 0x80 then some ⟨bits, 0, 0, 0⟩
  else if b < 0xC2 then none
  else if b < 0xE0 then some ⟨bits - 0xC0, 1, 0x80, 0xBF⟩
  else if b = 0xE0 then some ⟨0, 2, 0xA0, 0xBF⟩
  else if b = 0xED then some ⟨13, 2, 0x80, 0x9F⟩
  else if b < 0xF0 then some ⟨bits - 0xE0, 2, 0x80, 0xBF⟩
  else if b = 0xF0 then some ⟨0, 3, 0x90, 0xBF⟩
  else if b < 0xF4 then some ⟨bits - 0xF0, 3, 0x80, 0xBF⟩
  else if b = 0xF4 then some ⟨4, 3, 0x80, 0x8F⟩
  else none

/-- The bytes that continue a sequence, up to the first that cannot. -/
def continuation : Nat → UInt8 → UInt8 → List UInt8 → List UInt8
  | 0, _, _, _ => []
  | _ + 1, _, _, [] => []
  | count + 1, low, high, b :: bs =>
    if low ≤ b ∧ b ≤ high then b :: continuation count 0x80 0xBF bs else []

/-- The characters of bytes; every character takes at least one. -/
def decodeAll : Nat → List UInt8 → List Char
  | 0, _ => []
  | _ + 1, [] => []
  | fuel + 1, b :: bs =>
    match lead? b with
    | none => replacement :: decodeAll fuel bs
    | some l =>
      let more := continuation l.count l.low l.high bs
      let c :=
        if more.length = l.count then
          Char.ofNat (more.foldl (fun code b => 64 * code + (b.toNat - 0x80)) l.bits)
        else replacement
      c :: decodeAll fuel (bs.drop more.length)

/-- The text that bytes come closest to. -/
def decode (bytes : ByteArray) : String := String.ofList (decodeAll bytes.size bytes.toList)

example : decode ⟨#[0x61, 0xC3, 0xA9, 0xF0, 0x9F, 0x98, 0x80]⟩ = "aé😀" := by decide +kernel
example : decodeAll 6 [0xFF, 0xE2, 0x82, 0x41, 0xED, 0xA0] =
    [replacement, replacement, 'A', replacement, replacement] := by decide +kernel

end Utf8

end Matchmaking
