import MiniPascal.Diagnostic.Report
import MiniPascal.Snippet.Draw

/-!
# Rendered diagnostics

A diagnostic is rendered as its title, the snippet of its location and its text. On a terminal that
shows colours, the title of a diagnostic without a location is bold and its level coloured.
-/

namespace MiniPascal

/-- Control sequences of terminals that show colours. -/
inductive Style where
  | plain
  | bold
  | boldRed
  | boldYellow
  | boldBrightGreen
  | boldBrightCyan

/-- The sequence that switches to a style; nothing where no colours are shown. -/
def Style.sequence (coloured : Bool) (s : Style) : String :=
  if coloured then
    "\x1b[0m" ++ match s with
      | .plain => ""
      | .bold => "\x1b[1m"
      | .boldRed => "\x1b[1m\x1b[31m"
      | .boldYellow => "\x1b[1m\x1b[33m"
      | .boldBrightGreen => "\x1b[1m\x1b[38;5;10m"
      | .boldBrightCyan => "\x1b[1m\x1b[38;5;14m"
  else ""

/-- The style of a level. -/
def Level.style : Level → Style
  | .warning => .boldYellow
  | .error => .boldRed

namespace Diagnostic

/-- The title of a diagnostic without a location. -/
def heading (d : Diagnostic) (coloured : Bool) : String :=
  d.level.style.sequence coloured ++ d.level.text ++ Style.bold.sequence coloured ++ ": " ++ d.title
    ++ "\n\n" ++ Style.plain.sequence coloured

/-- The whole diagnostic. -/
def render (d : Diagnostic) (coloured : Bool) : String :=
  (match d.location with
    | some location => d.level.text ++ ": " ++ d.title ++ "\n" ++ Snippet.draw location
    | none => d.heading coloured)
  ++ (if d.text.isEmpty then "" else d.text ++ "\n")

end Diagnostic

/-- A failure as it is shown: its diagnostics, each with an empty line after it. -/
def Failure.render (f : Failure) (coloured : Bool) : String :=
  Snippet.concat (f.diagnostics.map fun d ↦ d.render coloured ++ "\n")

/-- A notice as it is shown. -/
def Notice.render (n : Notice) (coloured : Bool) : String := n.diagnostic.render coloured ++ "\n"

end MiniPascal
