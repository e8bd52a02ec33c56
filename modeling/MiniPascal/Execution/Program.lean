import MiniPascal.Execution.Declaration
import MiniPascal.Execution.Statement
import MiniPascal.Warning.Basic

/-!
# Programs

```text
program → PROGRAM identifier ; declarations compound .
```

A program that runs to its final point gives its name, its variables with their last values and its
listing. What follows the point is not executed, but its first token is read. Warnings are listed by
the place they are about.
-/

namespace MiniPascal

/-- The outcome of a program. -/
structure Compiled where
  name : String
  store : Store
  listing : Listing
  warnings : List Warning

namespace Execution

/-- The text after the final point, if there is a token in it. -/
def unreachableCode (s : State) : List Warning :=
  match s.current.token with
  | .endOfInput => []
  | _ => [.unreachableCode ⟨s.current.span.start, s.scanner.endOffset⟩]

/-- The comment left open at the end of the text, if one was read. -/
def unterminatedComment (s : State) : List Warning :=
  match s.scanner.openComment with
  | some span => [.unterminatedComment span]
  | none => []

/-- The variables that were never assigned. -/
def unusedVariables (s : State) : List Warning :=
  s.store.unassigned.map fun (name, span) ↦ .unusedVariable span name

/-- The warnings of a program that has run, by the start of their text. -/
def warnings (s : State) : List Warning :=
  (unreachableCode s ++ unterminatedComment s ++ unusedVariables s).mergeSort
    fun a b ↦ decide (a.span.start ≤ b.span.start)

/-- A whole program. -/
def program (n : Nat) : Execution Compiled := do
  let _ ← expect (.keyword .program)
  let (name, _) ← identifier
  let _ ← expect (.symbol .semicolon)
  declarations n
  compound n
  let _ ← expect (.symbol .dot)
  let s ← get
  return { name, store := s.store, listing := s.listing, warnings := warnings s }

/-- The result of an execution that starts in a given state. -/
def result {α : Type} (x : Execution α) (s : State) : Except Halt α :=
  match x s with
  | .ok a _ => .ok a
  | .error h _ => .error h

end Execution

/-- Executes the program that a scanner is placed at. -/
def compileScanned (fuel : Nat) (scanner : Scanner) : Except Halt Compiled :=
  match State.start scanner with
  | .ok s => (Execution.program fuel).result s
  | .error f => .error (.fault f)

/-- Executes a program given as text. -/
def compileText (fuel : Nat) (source : String) : Except Halt Compiled :=
  compileScanned fuel (.ofString source)

end MiniPascal
