import MiniPascal.Span

/-!
# Diagnostics

A diagnostic says what is wrong, or worth noting, about a program: a title, a text and, where it is
about a place in a source, labels on that source.
-/

namespace MiniPascal

/-- How serious a diagnostic is. -/
inductive Level where
  | warning
  | error
  deriving DecidableEq, Repr

/-- The word that opens a diagnostic. -/
def Level.text : Level → String
  | .warning => "warning"
  | .error => "error"

/-- A mark on a range of the source, with an optional message. -/
structure Label where
  text : Option String
  span : Span
  deriving DecidableEq, Repr

/-- The message of a label; a label without one has the empty message. -/
def Label.message (l : Label) : String := l.text.getD ""

/-- A place in a source: one label on what the diagnostic is about, and further ones. -/
structure Location where
  source : String
  path : String
  label : Label
  extra : List Label
  deriving DecidableEq, Repr

/-- A diagnostic. -/
structure Diagnostic where
  title : String
  text : String
  level : Level
  location : Option Location
  deriving DecidableEq, Repr

end MiniPascal
