import MiniPascal.Binary64.Remainder
import MiniPascal.Value.Basic

/-!
# Arithmetic

Integer arithmetic is exact: a result that does not fit 64 bits is reported as an overflow. As soon
as one operand is a real, both are taken as reals, and the result is a real; only `DIV` always gives
an integer and `/` always a real. Division by a zero of either type is an error before anything
else.
-/

namespace MiniPascal

/-- What can go wrong in an operation. -/
inductive ArithmeticFault where
  | divisionByZero
  | overflow
  deriving DecidableEq, Repr

namespace Value

/-- The least integer. -/
def minInteger : Int := -9223372036854775808

/-- The greatest integer. -/
def maxInteger : Int := 9223372036854775807

/-- The integer value of an exact result, if it fits. -/
def ofInt (r : Int) : Except ArithmeticFault Value :=
  if minInteger ≤ r ∧ r ≤ maxInteger then .ok (.integer (Int64.ofInt r)) else .error .overflow

/-- Fails when the divisor is zero. -/
def divisor (b : Value) : Except ArithmeticFault Unit :=
  if b.isZero then .error .divisionByZero else .ok ()

/-- The sum. -/
def add : Value → Value → Except ArithmeticFault Value
  | .integer a, .integer b => ofInt (a.toInt + b.toInt)
  | a, b => .ok (.real (a.toReal + b.toReal))

/-- The difference. -/
def sub : Value → Value → Except ArithmeticFault Value
  | .integer a, .integer b => ofInt (a.toInt - b.toInt)
  | a, b => .ok (.real (a.toReal - b.toReal))

/-- The product. -/
def mul : Value → Value → Except ArithmeticFault Value
  | .integer a, .integer b => ofInt (a.toInt * b.toInt)
  | a, b => .ok (.real (a.toReal * b.toReal))

/-- The integer nearest to a real quotient toward zero, if there is one. -/
def ofQuotient (x : Float) : Except ArithmeticFault Value :=
  match Binary64.truncate? x with
  | some q => ofInt q
  | none => .error .overflow

/-- `DIV`: the quotient truncated toward zero, always an integer. -/
def integerQuotient (a b : Value) : Except ArithmeticFault Value := do
  divisor b
  match a, b with
  | .integer a, .integer b => ofInt (a.toInt.tdiv b.toInt)
  | a, b => ofQuotient (a.toReal / b.toReal)

/-- `/`: the quotient as a real. -/
def realQuotient (a b : Value) : Except ArithmeticFault Value := do
  divisor b
  return .real (a.toReal / b.toReal)

/-- The remainder of two integers. What the truncated quotient leaves has the sign of `a`; where
that is not the sign of `b`, the remainder is moved by `b`. -/
def remainder (a b : Int64) : Except ArithmeticFault Value :=
  let rem := a % b
  if rem != 0 && decide (rem < 0) != decide (b < 0) then ofInt (rem.toInt + b.toInt)
  else .ok (.integer rem)

/-- `%`: the remainder of the quotient rounded down, so it takes the sign of the divisor. -/
def modulo (a b : Value) : Except ArithmeticFault Value := do
  divisor b
  match a, b with
  | .integer a, .integer b => remainder a b
  | a, b => return .real (Binary64.modulo a.toReal b.toReal)

/-- The value with the opposite sign. -/
def neg : Value → Except ArithmeticFault Value
  | .integer a => ofInt (-a.toInt)
  | .real x => .ok (.real (-x))

/-- The order of two reals; NaN has none. -/
def compareReal (x y : Float) : Option Ordering :=
  if x < y then some .lt
  else if x == y then some .eq
  else if y < x then some .gt
  else none

/-- The order of two values by what they stand for: integers exactly, otherwise as reals. -/
def compare : Value → Value → Option Ordering
  | .integer a, .integer b => some (Ord.compare a.toInt b.toInt)
  | a, b => compareReal a.toReal b.toReal

end Value

end MiniPascal
