import MiniPascal.File.Fault

/-!
# Decoding UTF-8 byte by byte

A stream of bytes is decoded one character at a time. The first byte of a character tells how many
follow it; each of these must be a continuation byte, and only after the last of them is the number
they make checked. A stream that ends inside a character is cut short; everything else that is not
UTF-8 is invalid. Decoding stops at the first fault and keeps the characters before it.
-/

namespace MiniPascal.Utf8

/-- A character whose first byte was read. -/
structure Pending where
  /-- How many more bytes follow after the next one. -/
  more : Nat
  /-- The number made so far. -/
  code : Nat
  /-- The least number that needs this many bytes. -/
  least : Nat

/-- The characters decoded so far, the last one first, and the one that is being read. -/
structure Decoder where
  chars : List Char := []
  pending : Option Pending := none

namespace Decoder

/-- The character with a given number, if there is one and it needs as many bytes as were read. -/
def scalar? (least code : Nat) : Option Char :=
  if h : code.isValidChar then
    if least ≤ code then some (Char.ofNatAux code h) else none
  else none

/-- The first byte of a character. -/
def first (d : Decoder) (byte : Nat) : Except FileFault Decoder :=
  if byte < 0x80 then .ok { d with chars := Char.ofNat byte :: d.chars }
  else if byte < 0xC0 then .error .invalidData
  else if byte < 0xE0 then .ok { d with pending := some ⟨0, byte - 0xC0, 0x80⟩ }
  else if byte < 0xF0 then .ok { d with pending := some ⟨1, byte - 0xE0, 0x800⟩ }
  else if byte < 0xF8 then .ok { d with pending := some ⟨2, byte - 0xF0, 0x10000⟩ }
  else .error .invalidData

/-- A further byte of a character. -/
def next (d : Decoder) (p : Pending) (byte : Nat) : Except FileFault Decoder :=
  if 0x80 ≤ byte ∧ byte < 0xC0 then
    let code := 64 * p.code + (byte - 0x80)
    match p.more with
    | more + 1 => .ok { d with pending := some { p with more, code } }
    | 0 =>
      match scalar? p.least code with
      | some c => .ok ⟨c :: d.chars, none⟩
      | none => .error .invalidData
  else .error .invalidData

/-- Takes one byte. -/
def feed (d : Decoder) (byte : UInt8) : Except FileFault Decoder :=
  match d.pending with
  | some p => d.next p byte.toNat
  | none => d.first byte.toNat

/-- The fault of a stream that ends here, inside a character. -/
def fault? (d : Decoder) : Option FileFault :=
  match d.pending with
  | some _ => some .unexpectedEnd
  | none => none

end Decoder

/-- The characters of a stream up to its first fault, and that fault. -/
structure Decoded where
  chars : List Char
  fault : Option FileFault

/-- Decodes the rest of a stream. -/
def Decoder.run (d : Decoder) : List UInt8 → Decoded
  | [] => ⟨d.chars.reverse, d.fault?⟩
  | byte :: bytes =>
    match d.feed byte with
    | .ok d => d.run bytes
    | .error f => ⟨d.chars.reverse, some f⟩

/-- Decodes a stream of bytes. -/
def decode (bytes : List UInt8) : Decoded :=
  Decoder.run {} bytes

end MiniPascal.Utf8
