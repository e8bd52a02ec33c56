import MiniPascal.Scanner.Fault
import MiniPascal.Token.Text

/-!
# Faults

What stops the execution of a program: a token out of place, a misused variable, an arithmetic
fault, or a text that has no next token. A fault has a place, a short message and lines of detail.
-/

namespace MiniPascal

/-- What is wrong. -/
inductive FaultCause where
  /-- A token is none of those that could stand here. -/
  | unexpected (token : Token) (expected : List String)
  /-- A name is declared again; `first` is the place of its declaration. -/
  | duplicateDeclaration (name : String) (first : Span)
  | undeclared (name : String)
  | unassigned (name : String)
  | typeMismatch (name : String) (expected got : DataType)
  | arithmetic (fault : ArithmeticFault)
  | lexical (fault : LexicalFault)

/-- What is wrong, and where. -/
structure Fault where
  cause : FaultCause
  span : Span

/-- A lexical fault stands where it was found. -/
def Fault.ofLexical (f : LexicalFault) : Fault := ⟨.lexical f, f.span⟩

/-- The arithmetic fault in a few words. -/
def ArithmeticFault.message : ArithmeticFault → String
  | .divisionByZero => "Division by zero"
  | .overflow => "Integer overflow"

/-- The arithmetic fault explained. -/
def ArithmeticFault.details : ArithmeticFault → List String
  | .divisionByZero => []
  | .overflow => ["The result does not fit in the range " ++ integerRange]

namespace FaultCause

/-- The fault in a few words. -/
def message : FaultCause → String
  | .unexpected _ _ => "Not expected this"
  | .duplicateDeclaration _ _ => "Duplicate declaration"
  | .undeclared _ => "Variable not declared"
  | .unassigned _ => "Variable has no value"
  | .typeMismatch _ _ _ => "Type mismatch"
  | .arithmetic fault => fault.message
  | .lexical fault => fault.cause.message

/-- The fault explained. -/
def details : FaultCause → List String
  | .unexpected token expected =>
    ("Found " ++ token.describe ++ ", expected one of: ") :: expected.map ("- " ++ ·)
  | .duplicateDeclaration name _ => ["Variable `" ++ name ++ "` is declared more than once."]
  | .undeclared name => ["Variable `" ++ name ++ "` is not declared before assignment."]
  | .unassigned name =>
    ["Variable `" ++ name ++ "` is used before any value is assigned to it."]
  | .typeMismatch name expected got =>
    ["Variable `" ++ name ++ "` is declared `" ++ expected.text ++ "`, but the value is `"
      ++ got.text ++ "`."]
  | .arithmetic fault => fault.details
  | .lexical fault => fault.cause.details

end FaultCause

end MiniPascal
