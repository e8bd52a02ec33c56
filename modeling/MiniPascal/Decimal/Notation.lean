import MiniPascal.Decimal.Shortest

/-!
# Written decimals

A decimal is written positionally, with as many zeros as its place needs, or scientifically, with
one digit before the point. A decimal with `n` digits and exponent `e` has its point `n + e` places
after the front of its digits.
-/

namespace MiniPascal.Decimal

/-- A row of zeros. -/
def zeros (n : Nat) : String := String.ofList (List.replicate n '0')

/-- The digits of the decimal, without sign or point. -/
def digitText (d : Decimal) : String := toString d.digits

/-- The place of the point, counted from the front of the digits. -/
def point (d : Decimal) : Int := (d.digitText.length : Int) + d.exponent

/-- Positional notation with at least one digit on both sides of the point. -/
def positional (d : Decimal) : String :=
  let digits := d.digitText
  if d.point ≤ 0 then "0." ++ zeros (-d.point).toNat ++ digits
  else if 0 ≤ d.exponent then digits ++ zeros d.exponent.toNat ++ ".0"
  else
    String.ofList (digits.toList.take d.point.toNat) ++ "."
      ++ String.ofList (digits.toList.drop d.point.toNat)

/-- Scientific notation: one digit, the others after a point if there are any, and the exponent. -/
def scientific (d : Decimal) : String :=
  let digits := d.digitText.toList
  let fraction := digits.drop 1
  String.ofList (digits.take 1)
    ++ (if fraction.isEmpty then "" else "." ++ String.ofList fraction)
    ++ "e" ++ toString (d.point - 1)

end MiniPascal.Decimal
