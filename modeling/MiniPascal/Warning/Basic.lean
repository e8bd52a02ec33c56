import MiniPascal.Span

/-!
# Warnings

What is worth noting about a program that could be executed.
-/

namespace MiniPascal

/-- A warning and the text it is about. -/
inductive Warning where
  | unusedVariable (span : Span) (name : String)
  | unterminatedComment (span : Span)
  | unreachableCode (span : Span)
  deriving DecidableEq, Repr

/-- The text a warning is about. -/
def Warning.span : Warning → Span
  | .unusedVariable span _ => span
  | .unterminatedComment span => span
  | .unreachableCode span => span

end MiniPascal
