import MiniPascal.Binary64.Parts

/-!
# Remainders

The remainder of a division truncated toward zero is a binary64 number again, so it can be computed
exactly: both magnitudes are written over the lower of the two exponents and divided as integers.
The floored modulo adds the divisor where the signs differ, in floating point.
-/

namespace MiniPascal.Binary64

/-- The remainder of two magnitudes, exact over the lower exponent. -/
def Magnitude.remainder (a b : Magnitude) : Magnitude :=
  let exponent := min a.exponent b.exponent
  let units (m : Magnitude) : Nat := m.mantissa * Nat.pow 2 (m.exponent - exponent).toNat
  ⟨units a % units b, exponent⟩

/-- The remainder of `x / y` with the quotient truncated toward zero. It has the sign of `x`; an
infinite `x` or a zero `y` gives NaN, an infinite `y` gives `x`. -/
def remainder (x y : Float) : Float :=
  match parts x, parts y with
  | .finite negative a, .finite _ b =>
    if b.mantissa = 0 then nan else ofFinite negative (a.remainder b)
  | .finite _ _, .infinite _ => x
  | _, _ => nan

/-- The remainder with the quotient rounded down: it takes the sign of `y`. -/
def modulo (x y : Float) : Float :=
  let rem := remainder x y
  if rem != 0 && decide (rem < 0) != decide (y < 0) then rem + y else rem

end MiniPascal.Binary64
