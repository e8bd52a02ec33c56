import MiniPascal.Span
import MiniPascal.Text.Escape
import MiniPascal.Value.Arithmetic

/-!
# Lexical faults

The two ways in which a text has no next token: a character that starts none, and a row of digits
that is too large for an integer. A fault has a short message and lines of detail.
-/

namespace MiniPascal

/-- Why there is no token. -/
inductive LexicalCause where
  | unrecognized (c : Char)
  | integerTooLarge
  deriving DecidableEq, Repr

/-- A lexical fault and the text it is about. -/
structure LexicalFault where
  cause : LexicalCause
  span : Span
  deriving DecidableEq, Repr

/-- The range of the integers, as messages show it. -/
def integerRange : String := toString Value.minInteger ++ "..=" ++ toString Value.maxInteger

/-- The fault in a few words. -/
def LexicalCause.message : LexicalCause → String
  | .unrecognized _ => "Unrecognized character"
  | .integerTooLarge => "Integer literal is too large"

/-- The fault explained. -/
def LexicalCause.details : LexicalCause → List String
  | .unrecognized c => ["`" ++ Text.escapeAlone c ++ "` can not be recognized by the scanner"]
  | .integerTooLarge => ["Integers must fit in the range " ++ integerRange]

end MiniPascal
