import MiniPascal.Execution.Expression

/-!
# Statements

```text
statement  → compound | assignment | loop | nothing
compound   → BEGIN statements END
statements → statement {; statement}
assignment → identifier := expression
loop       → REPEAT statements UNTIL comparison
comparison → expression (>= | > | <= | < | = | <>) expression
```

A loop is executed by reading its text again: when its condition does not hold, the scanner is moved
back to `REPEAT`. Each pass emits its instructions anew. The address of a loop is the number of
characters before its `REPEAT`.
-/

namespace MiniPascal.Execution

/-- The comparisons, as messages list them. -/
def comparisonStart : List String := Comparison.all.map fun c ↦ c.symbol.text

/-- Stores a value in a variable. A wrong type is reported at the expression, which starts at
`start` and ends with the token before the next one. -/
def store (name : String) (span : Span) (start : Nat) (v : Value) : Execution Unit := do
  let s ← get
  match s.store.assign name v with
  | .ok store =>
    set { s with store }
    emit fun l ↦ l.move name v
  | .error .undeclared => fail (.undeclared name) span
  | .error (.typeMismatch expected got) =>
    fail (.typeMismatch name expected got) ⟨start, s.previousStop⟩

/-- An assignment. The expression is computed before the variable is looked at. -/
def assignment (n : Nat) : Execution Unit := do
  let (name, span) ← identifier
  let _ ← expect (.symbol .assign)
  let first ← current
  let v ← expression n
  store name span first.span.start v

/-- The condition of the loop at an address. Its jump is emitted between the two sides. -/
def comparison (n : Nat) (address : Nat) : Execution Bool := do
  let left ← expression n
  let here ← current
  match Comparison.ofToken? here.token with
  | some c =>
    emit fun l ↦ l.jump (.jump c) address
    step
    let right ← expression n
    return c.holds (left.compare right)
  | none => unexpected comparisonStart

/-- Notes the address of the loop that starts at the next token. -/
def markLoop : Execution Nat := do
  let s ← get
  let address := s.scanner.charIndex s.current.span.start
  emit fun l ↦ l.markLoop address
  return address

mutual

/-- A statement; nothing at all is one too. -/
def statement : Nat → Execution Unit
  | 0 => outOfFuel
  | n + 1 => do
    let here ← current
    match here.token with
    | .keyword .blockBegin => compound n
    | .identifier _ => assignment n
    | .keyword .loopRepeat =>
      let address ← markLoop
      passes n address
    | _ => return ()

/-- Statements between `BEGIN` and `END`. -/
def compound : Nat → Execution Unit
  | 0 => outOfFuel
  | n + 1 => do
    let _ ← expect (.keyword .blockBegin)
    statements n
    let _ ← expect (.keyword .blockEnd)
    return ()

/-- Statements with semicolons between them. -/
def statements : Nat → Execution Unit
  | 0 => outOfFuel
  | n + 1 => do
    statement n
    moreStatements n

/-- The statements that follow a semicolon, if one is next. -/
def moreStatements : Nat → Execution Unit
  | 0 => outOfFuel
  | n + 1 => do
    let here ← current
    match here.token with
    | .symbol .semicolon =>
      step
      statement n
      moreStatements n
    | _ => return ()

/-- The passes of the loop at an address, from its `REPEAT` to the pass whose condition holds. -/
def passes : Nat → Nat → Execution Unit
  | 0, _ => outOfFuel
  | n + 1, address => do
    let _ ← expect (.keyword .loopRepeat)
    statements n
    let _ ← expect (.keyword .loopUntil)
    let done ← comparison n address
    if done then return ()
    else
      rewind address
      passes n address

end

end MiniPascal.Execution
