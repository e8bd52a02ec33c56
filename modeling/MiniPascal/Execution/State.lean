import MiniPascal.Execution.Fault
import MiniPascal.Listing.Basic
import MiniPascal.Scanner.Basic
import MiniPascal.Store

/-!
# Execution

A program is executed while it is read. The state of an execution holds the token that is read next,
the scanner behind it, the variables and the instructions emitted so far. An `Execution` is a step
on this state that succeeds with a value or halts; what it did before halting stays in the state.

Loops may run for ever, so the productions take an amount of fuel, and running out of it is a way of
halting apart from the faults of the program.
-/

namespace MiniPascal

/-- The state of an execution. -/
structure State where
  /-- The next token. -/
  current : Lexeme
  store : Store
  listing : Listing
  /-- The end of the token before the next one. -/
  previousStop : Nat
  scanner : Scanner

/-- Why an execution halts early. -/
inductive Halt where
  | fault (f : Fault)
  | outOfFuel

/-- A step of an execution. -/
abbrev Execution := EStateM Halt State

/-- The state before anything is executed: the first token is read. -/
def State.start (scanner : Scanner) : Except Fault State :=
  match scanner.next with
  | (.ok current, scanner) =>
    .ok { current, store := .empty, listing := .empty, previousStop := 0, scanner }
  | (.error f, _) => .error (.ofLexical f)

namespace Execution

variable {α : Type}

/-- Halts for lack of fuel. -/
def outOfFuel : Execution α := throw .outOfFuel

/-- Halts with a fault at a place. -/
def fail (cause : FaultCause) (span : Span) : Execution α := throw (.fault ⟨cause, span⟩)

/-- The next token. -/
def current : Execution Lexeme := fun s ↦ .ok s.current s

/-- Halts because of the next token. -/
def unexpected (expected : List String) : Execution α := fun s ↦
  .error (.fault ⟨.unexpected s.current.token expected, s.current.span⟩) s

/-- Moves on to the token after the next one. If there is none, only the scanner has moved. -/
def step : Execution Unit := fun s ↦
  match s.scanner.next with
  | (.ok next, scanner) =>
    .ok () { s with current := next, previousStop := s.current.span.stop, scanner }
  | (.error f, scanner) => .error (.fault (.ofLexical f)) { s with scanner }

/-- Adds to the listing. -/
def emit (f : Listing → Listing) : Execution Unit := fun s ↦
  .ok () { s with listing := f s.listing }

/-- Takes a given token and tells its place. -/
def expect (t : Token) : Execution Span := do
  let here ← current
  if here.token.same t then
    step
    return here.span
  else unexpected [t.text]

/-- Takes an identifier and tells its name and place. -/
def identifier : Execution (String × Span) := do
  let here ← current
  match here.token with
  | .identifier name =>
    step
    return (name, here.span)
  | _ => unexpected ["identifier"]

/-- The result of an operation, whose fault is reported at a place. -/
def arithmetic (span : Span) : Except ArithmeticFault Value → Execution Value
  | .ok v => return v
  | .error f => fail (.arithmetic f) span

/-- Moves the scanner to the character with a given number and reads the token there. -/
def rewind (address : Nat) : Execution Unit := do
  modify fun s ↦ { s with scanner := s.scanner.seek address }
  step

end Execution

end MiniPascal
