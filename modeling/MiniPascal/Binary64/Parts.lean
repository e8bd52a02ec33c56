/-!
# The parts of a binary64 number

A real of the language is an IEEE 754 binary64 number. Its text, its remainder and its integral part
are functions of the exact number it stands for, so they are computed here on the parts: a sign and
a magnitude `mantissa * 2 ^ exponent` over the integers, read off the bits and written back to them.
-/

namespace MiniPascal.Binary64

/-- An exact magnitude `mantissa * 2 ^ exponent`. -/
structure Magnitude where
  mantissa : Nat
  exponent : Int
  deriving DecidableEq, Repr

/-- What the bits of a number say. -/
inductive Parts where
  | nan
  | infinite (negative : Bool)
  | finite (negative : Bool) (magnitude : Magnitude)
  deriving DecidableEq, Repr

/-- The exponent of the smallest magnitude: no finite number has a lower one. -/
def minExponent : Int := -1074

/-- The parts held in 64 bits: one bit of sign, eleven of exponent, fifty-two of fraction. A number
whose exponent bits are zero has no hidden bit. -/
def partsOfBits (bits : Nat) : Parts :=
  let negative := decide (bits / Nat.pow 2 63 % 2 = 1)
  let biased : Nat := bits / Nat.pow 2 52 % Nat.pow 2 11
  let fraction : Nat := bits % Nat.pow 2 52
  if biased = 2047 then
    if fraction = 0 then .infinite negative else .nan
  else if biased = 0 then .finite negative ⟨fraction, minExponent⟩
  else .finite negative ⟨fraction + Nat.pow 2 52, (biased : Int) - 1075⟩

/-- The parts of a number. -/
def parts (x : Float) : Parts := partsOfBits x.toBits.toNat

/-- The magnitude with as many mantissa bits as the format keeps: 53, or fewer at the lowest
exponent. Exact for every magnitude the format can hold. -/
def Magnitude.normalize (m : Magnitude) : Magnitude :=
  let exponent := max (m.exponent + (m.mantissa.log2 : Int) - 52) minExponent
  if m.exponent ≤ exponent then
    ⟨m.mantissa >>> (exponent - m.exponent).toNat, exponent⟩
  else ⟨m.mantissa <<< (m.exponent - exponent).toNat, exponent⟩

/-- The bits of a finite number whose magnitude the format can hold. -/
def bitsOfFinite (negative : Bool) (m : Magnitude) : Nat :=
  let n := m.normalize
  let sign := if negative then Nat.pow 2 63 else 0
  if n.mantissa < Nat.pow 2 52 then sign + n.mantissa
  else sign + (n.exponent + 1075).toNat * Nat.pow 2 52 + (n.mantissa - Nat.pow 2 52)

/-- The finite number with a given sign and magnitude. -/
def ofFinite (negative : Bool) (m : Magnitude) : Float :=
  Float.ofBits (UInt64.ofNat (bitsOfFinite negative m))

/-- The number that is no number. -/
def nan : Float := Float.ofBits 0x7FF8000000000000

end MiniPascal.Binary64
