import MiniPascal.Execution.State

/-!
# Expressions

```text
expression → term {(+ | -) term}
term       → factor {(* | DIV | / | %) factor}
factor     → (+ | -) expression | number | ( expression ) | identifier
```

A sign takes the whole expression after it. An expression is computed as it is read: a literal or a
variable is put on the stack, and every operator emits its instruction with the values it works on
before the result is computed, so the instruction stands in the listing also when the operation
fails.
-/

namespace MiniPascal.Execution

/-- A literal: its value is pushed. -/
def literal (v : Value) : Execution Value := do
  emit fun l ↦ l.pushImmediate v
  step
  return v

/-- A variable is pushed; it must have a value. -/
def variableValue (name : String) (span : Span) : Execution Value := do
  emit fun l ↦ l.pushVariable name
  step
  match (← get).store.value? name with
  | some v => return v
  | none => fail (.unassigned name) span

/-- An operator between a value and an operand that is still to be read. A fault stands at the
operator. -/
def binary (op : Operator) (left : Value) (operand : Execution Value) : Execution Value := do
  let here ← current
  step
  let right ← operand
  emit fun l ↦ l.arithmetic (.arithmetic op) left right
  arithmetic here.span (op.apply left right)

/-- What can start a factor. -/
def factorStart : List String :=
  ["identifier", "number", Symbol.openParen.text, Symbol.plus.text, Symbol.minus.text]

mutual

/-- An expression: terms joined by additive operators. -/
def expression : Nat → Execution Value
  | 0 => outOfFuel
  | n + 1 => do
    let first ← term n
    sums n first

/-- The additive operators that follow a value, from the left. -/
def sums : Nat → Value → Execution Value
  | 0, _ => outOfFuel
  | n + 1, left => do
    let here ← current
    match Operator.additive? here.token with
    | some op =>
      let result ← binary op left (term n)
      sums n result
    | none => return left

/-- A term: factors joined by multiplicative operators. -/
def term : Nat → Execution Value
  | 0 => outOfFuel
  | n + 1 => do
    let first ← factor n
    products n first

/-- The multiplicative operators that follow a value, from the left. -/
def products : Nat → Value → Execution Value
  | 0, _ => outOfFuel
  | n + 1, left => do
    let here ← current
    match Operator.multiplicative? here.token with
    | some op =>
      let result ← binary op left (factor n)
      products n result
    | none => return left

/-- A factor: a sign with an expression, a literal, an expression in parentheses or a variable. -/
def factor : Nat → Execution Value
  | 0 => outOfFuel
  | n + 1 => do
    let here ← current
    match here.token with
    | .symbol .plus =>
      step
      expression n
    | .symbol .minus =>
      step
      let v ← expression n
      emit fun l ↦ l.negate v
      arithmetic here.span v.neg
    | .integer k => literal (.integer k)
    | .real x => literal (.real x)
    | .symbol .openParen =>
      step
      let v ← expression n
      let _ ← expect (.symbol .closeParen)
      return v
    | .identifier name => variableValue name here.span
    | _ => unexpected factorStart

end

end MiniPascal.Execution
