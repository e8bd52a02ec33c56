import MiniPascal.Binary64.Parts

/-!
# Integral parts

A finite number is a whole number plus a fraction of the same sign. The whole part is exact, however
large, since it is taken from the magnitude and not computed in floating point.
-/

namespace MiniPascal.Binary64

/-- The largest whole number not above the magnitude. -/
def Magnitude.floor (m : Magnitude) : Nat :=
  if 0 ≤ m.exponent then m.mantissa * Nat.pow 2 m.exponent.toNat
  else m.mantissa / Nat.pow 2 (-m.exponent).toNat

/-- Whether the magnitude is a whole number. -/
def Magnitude.isWhole (m : Magnitude) : Bool :=
  decide (0 ≤ m.exponent) || decide (m.mantissa % Nat.pow 2 (-m.exponent).toNat = 0)

/-- The whole part of a number, rounded toward zero; none of NaN and the infinities. -/
def truncate? (x : Float) : Option Int :=
  match parts x with
  | .finite false m => some m.floor
  | .finite true m => some (-(m.floor : Int))
  | _ => none

end MiniPascal.Binary64
