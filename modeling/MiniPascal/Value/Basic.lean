import MiniPascal.Binary64.Integral
import MiniPascal.Decimal.Notation

/-!
# Values and their types

A variable holds a 64-bit integer or a binary64 real, and the type of a value is part of the value.
A whole real keeps its point when it is written, so the text of a value shows its type.
-/

namespace MiniPascal

/-- The type a variable is declared with. -/
inductive DataType where
  | integer
  | real
  deriving DecidableEq, Repr, Inhabited

/-- The word for a type in the language. -/
def DataType.text : DataType → String
  | .integer => "INTEGER"
  | .real => "REAL"

/-- A value of the language. -/
inductive Value where
  | integer (n : Int64)
  | real (x : Float)
  deriving Inhabited

namespace Value

/-- The type of a value. -/
def type : Value → DataType
  | .integer _ => .integer
  | .real _ => .real

/-- The value as a real: an integer is rounded to the nearest one. -/
def toReal : Value → Float
  | .integer n => Float.ofInt n.toInt
  | .real x => x

/-- Whether the value is a zero of its type. Both zeros of the reals count. -/
def isZero : Value → Bool
  | .integer n => n == 0
  | .real x => x == 0

/-- Equality of values of one type; an integer never equals a real, and NaN equals nothing. -/
def equal : Value → Value → Bool
  | .integer a, .integer b => a == b
  | .real a, .real b => a == b
  | _, _ => false

/-- A sign in front of the text of a magnitude. -/
def signed (negative : Bool) (text : String) : String :=
  if negative then "-" ++ text else text

/-- The text of a real: every digit of a whole number and `.0`, and otherwise the shortest decimal,
always positional. -/
def realText (x : Float) : String :=
  match Binary64.parts x with
  | .nan => "NaN"
  | .infinite negative => signed negative "inf"
  | .finite negative m =>
    signed negative <|
      if m.isWhole then toString m.floor ++ ".0" else (Decimal.shortest m).positional

/-- The text of a value. -/
def text : Value → String
  | .integer n => toString n.toInt
  | .real x => realText x

@[simp] theorem type_integer (n : Int64) : (Value.integer n).type = .integer := rfl

@[simp] theorem type_real (x : Float) : (Value.real x).type = .real := rfl

end Value

end MiniPascal
