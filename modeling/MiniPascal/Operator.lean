import MiniPascal.Token.Basic
import MiniPascal.Value.Arithmetic

/-!
# Operators

The six arithmetic operators act on values and may fail; the six comparisons decide by the order of
two values. Only `<>` holds of values without an order.
-/

namespace MiniPascal

/-- An arithmetic operator. -/
inductive Operator where
  | add
  | sub
  | mul
  | integerDiv
  | realDiv
  | modulo
  deriving DecidableEq, Repr

/-- A comparison. -/
inductive Comparison where
  | greaterEqual
  | greater
  | lessEqual
  | less
  | equal
  | notEqual
  deriving DecidableEq, Repr

namespace Operator

/-- The result of an operator. -/
def apply : Operator → Value → Value → Except ArithmeticFault Value
  | .add => Value.add
  | .sub => Value.sub
  | .mul => Value.mul
  | .integerDiv => Value.integerQuotient
  | .realDiv => Value.realQuotient
  | .modulo => Value.modulo

/-- The operators that join terms. -/
def additive? : Token → Option Operator
  | .symbol .plus => some .add
  | .symbol .minus => some .sub
  | _ => none

/-- The operators that join factors. -/
def multiplicative? : Token → Option Operator
  | .symbol .star => some .mul
  | .keyword .div => some .integerDiv
  | .symbol .slash => some .realDiv
  | .symbol .percent => some .modulo
  | _ => none

/-- The operator a token stands for. -/
def ofToken? (t : Token) : Option Operator := (additive? t).or (multiplicative? t)

end Operator

namespace Comparison

/-- Whether the comparison holds of two values with a given order. -/
def holds : Comparison → Option Ordering → Bool
  | .greaterEqual, order => order == some .gt || order == some .eq
  | .greater, order => order == some .gt
  | .lessEqual, order => order == some .lt || order == some .eq
  | .less, order => order == some .lt
  | .equal, order => order == some .eq
  | .notEqual, order => order != some .eq

/-- The symbol of a comparison. -/
def symbol : Comparison → Symbol
  | .greaterEqual => .greaterEqual
  | .greater => .greater
  | .lessEqual => .lessEqual
  | .less => .less
  | .equal => .equal
  | .notEqual => .notEqual

/-- Every comparison, in the order in which messages list them. -/
def all : List Comparison := [.greaterEqual, .greater, .lessEqual, .less, .equal, .notEqual]

/-- The comparison a token stands for. -/
def ofToken? : Token → Option Comparison
  | .symbol .greaterEqual => some .greaterEqual
  | .symbol .greater => some .greater
  | .symbol .lessEqual => some .lessEqual
  | .symbol .less => some .less
  | .symbol .equal => some .equal
  | .symbol .notEqual => some .notEqual
  | _ => none

theorem ofToken?_symbol (c : Comparison) : ofToken? (.symbol c.symbol) = some c := by
  cases c <;> rfl

end Comparison

end MiniPascal
