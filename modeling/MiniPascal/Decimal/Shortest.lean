import MiniPascal.Binary64.Parts

/-!
# The shortest decimal of a binary64 number

Every real number close enough to a binary64 number reads back as it. Among the decimals in that
interval the shortest are those on the coarsest grid of powers of ten that meets it, and of these
the one nearest to the number is taken; of two equally near ones, the larger.

The interval reaches half a step to both sides, except that below a power of two the steps are half
as long. Its ends belong to it when the mantissa is even, because a tie reads back as the even
neighbour. All of it is decided over the integers, in quarters of a step.
-/

namespace MiniPascal

/-- The decimal `digits * 10 ^ exponent`. -/
structure Decimal where
  digits : Nat
  exponent : Int
  deriving DecidableEq, Repr

namespace Decimal

open Binary64 (Magnitude minExponent)

/-- A magnitude in quarters of a step with the interval that reads back as it: `low`, `value` and
`high` are to be multiplied by `2 ^ exponent`. -/
structure Reach where
  low : Nat
  value : Nat
  high : Nat
  exponent : Int
  /-- Whether the ends read back too. -/
  closed : Bool

/-- The interval of a magnitude. -/
def reach (m : Magnitude) : Reach where
  low := 4 * m.mantissa - (if m.mantissa = Nat.pow 2 52 ∧ minExponent < m.exponent then 1 else 2)
  value := 4 * m.mantissa
  high := 4 * m.mantissa + 2
  exponent := m.exponent - 2
  closed := m.mantissa % 2 = 0

/-- `2 ^ binary / 10 ^ decimal` as a fraction of natural numbers. -/
def ratio (binary decimal : Int) : Nat × Nat :=
  (Nat.pow 2 binary.toNat * Nat.pow 10 (-decimal).toNat,
   Nat.pow 2 (-binary).toNat * Nat.pow 10 decimal.toNat)

/-- The multiple of `10 ^ k` inside the interval that is nearest to the value, if the grid meets the
interval at a neighbour of the value. -/
def onGrid? (r : Reach) (k : Int) : Option Nat :=
  let (num, den) := ratio r.exponent k
  let below := r.value * num / den
  let inside (n : Nat) : Bool :=
    if r.closed then r.low * num ≤ n * den && n * den ≤ r.high * num
    else r.low * num < n * den && n * den < r.high * num
  match inside below, inside (below + 1) with
  | true, true =>
    if (2 * below + 1) * den ≤ 2 * r.value * num then some (below + 1) else some below
  | true, false => some below
  | false, true => some (below + 1)
  | false, false => none

/-- The first grid that meets the interval, from `10 ^ k` downward. -/
def search (r : Reach) : Nat → Int → Decimal
  | 0, k => ⟨r.value, k⟩
  | steps + 1, k =>
    match onGrid? r k with
    | some n => ⟨n, k⟩
    | none => search r steps (k - 1)

/-- A power of ten at or above the magnitude, close enough that twenty steps down reach seventeen
digits: the binary logarithm times the ratio of the logarithms, rounded up. -/
def startExponent (m : Magnitude) : Int :=
  ((m.mantissa.log2 : Int) + m.exponent + 1) * 30103 / 100000 + 1

/-- The shortest decimal that reads back as the magnitude. -/
def shortest (m : Magnitude) : Decimal :=
  if m.mantissa = 0 then ⟨0, 0⟩ else search (reach m) 24 (startExponent m)

end Decimal

end MiniPascal
