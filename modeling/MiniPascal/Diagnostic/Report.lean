import MiniPascal.Compilation
import MiniPascal.Diagnostic.Basic

/-!
# What diagnostics report

Failures and notices as diagnostics. A fault at the end of the source has an empty span; so that
there is something to see, its label is put on the last byte of the source.
-/

namespace MiniPascal

/-- The kind of a fault, as the title of its diagnostic. -/
def FaultCause.title : FaultCause → String
  | .unexpected _ _ => "Syntax error"
  | .lexical _ => "Lexical error"
  | .arithmetic _ => "Evaluation error"
  | .duplicateDeclaration _ _ => "Semantic error"
  | .undeclared _ => "Semantic error"
  | .unassigned _ => "Semantic error"
  | .typeMismatch _ _ _ => "Semantic error"

/-- Further places that a fault is about. -/
def FaultCause.extraLabels : FaultCause → List Label
  | .duplicateDeclaration _ first => [⟨some "First declared here", first⟩]
  | _ => []

/-- The span of a fault, moved onto the last byte of the source if it is empty at the end. -/
def Fault.visibleSpan (f : Fault) (source : String) : Span :=
  let size := source.utf8ByteSize
  if f.span.isEmpty && decide (size ≤ f.span.stop) then ⟨size - 1, size⟩ else f.span

/-- The diagnostic of a fault. -/
def Fault.diagnostic (f : Fault) (path source : String) : Diagnostic where
  title := f.cause.title
  text := "\n".intercalate f.cause.details
  level := .error
  location := some {
    source, path
    label := ⟨some f.cause.message, f.visibleSpan source⟩
    extra := f.cause.extraLabels }

/-- The diagnostic of a file fault. -/
def FileFault.diagnostic (f : FileFault) : Diagnostic where
  title := "Standard IO error"
  text := f.text
  level := .error
  location := none

/-- The diagnostics of a failure. -/
def Failure.diagnostics : Failure → List Diagnostic
  | .program path source f => [f.diagnostic path source]
  | .file f => [f.diagnostic]

/-- The title of a warning. -/
def Warning.title : Warning → String
  | .unusedVariable _ name => "Unused variable `" ++ name ++ "`"
  | .unterminatedComment _ => "Unterminated comment"
  | .unreachableCode _ => "Unreachable code"

/-- The message of a warning's label. -/
def Warning.message : Warning → String
  | .unusedVariable _ _ => "This variable is never assigned"
  | .unterminatedComment _ => "Everything after this `\x7b` is ignored"
  | .unreachableCode _ => "Source after the final `.` is ignored"

/-- The diagnostic of a notice. -/
def Notice.diagnostic (n : Notice) : Diagnostic where
  title := n.warning.title
  text := ""
  level := .warning
  location := some {
    source := n.source
    path := n.path
    label := ⟨some n.warning.message, n.warning.span⟩
    extra := [] }

end MiniPascal
