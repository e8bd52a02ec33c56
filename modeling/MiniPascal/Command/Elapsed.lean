import MiniPascal.Binary64.Parts

/-!
# Elapsed time

A time is measured in milliseconds, held in seconds as a binary32 number and shown with two places.
The number that is shown is the exact value of that binary32 number, with halves going to the even
neighbour.
-/

namespace MiniPascal.Elapsed

/-- A quotient rounded to the nearest number, halves to the even one. -/
def roundQuotient (n d : Nat) : Nat :=
  let q := n / d
  let r := n % d
  if d < 2 * r || (d == 2 * r && q % 2 == 1) then q + 1 else q

/-- The hundredths in a magnitude. -/
def hundredths (m : Binary64.Magnitude) : Nat :=
  roundQuotient (100 * m.mantissa * Nat.pow 2 m.exponent.toNat) (Nat.pow 2 (-m.exponent).toNat)

/-- Hundredths as a number with two places. -/
def twoPlaces (n : Nat) : String :=
  toString (n / 100) ++ "." ++ toString (n / 10 % 10) ++ toString (n % 10)

/-- A number of milliseconds in seconds. -/
def text (milliseconds : Nat) : String :=
  match Binary64.parts (Float32.ofNat milliseconds / 1000).toFloat with
  | .finite _ m => twoPlaces (hundredths m) ++ "s"
  | _ => "infs"

end MiniPascal.Elapsed
