import MiniPascal.Execution.State

/-!
# Declarations

```text
declarations → [VAR group ; {group ;}]
group        → identifier {, identifier} : type
type         → INTEGER | REAL
```

The variables of a group are declared from left to right once its type is known, and a name that is
taken stops the program at its second declaration.
-/

namespace MiniPascal.Execution

/-- Takes the name of a type. -/
def dataType : Execution DataType := do
  let here ← current
  match here.token.dataType? with
  | some type =>
    step
    return type
  | none => unexpected [Keyword.typeInteger.text, Keyword.typeReal.text]

/-- Declares one variable. -/
def declare (name : String) (span : Span) (type : DataType) : Execution Unit := do
  let s ← get
  match s.store.declare name type span with
  | .ok store =>
    set { s with store }
    emit fun l ↦ l.declare name type
  | .error first => fail (.duplicateDeclaration name first.span) span

/-- Declares variables of one type, from left to right. -/
def declareAll (type : DataType) : List (String × Span) → Execution Unit
  | [] => return ()
  | (name, span) :: rest => do
    declare name span type
    declareAll type rest

/-- The names that follow a comma, if one is next. -/
def moreNames : Nat → Execution (List (String × Span))
  | 0 => outOfFuel
  | n + 1 => do
    let here ← current
    match here.token with
    | .symbol .comma =>
      step
      let name ← identifier
      let names ← moreNames n
      return name :: names
    | _ => return []

/-- Names of one type. -/
def group (n : Nat) : Execution Unit := do
  let name ← identifier
  let names ← moreNames n
  let _ ← expect (.symbol .colon)
  let type ← dataType
  declareAll type (name :: names)

/-- Groups, as long as a name comes next. -/
def groups : Nat → Execution Unit
  | 0 => outOfFuel
  | n + 1 => do
    group n
    let _ ← expect (.symbol .semicolon)
    let here ← current
    match here.token with
    | .identifier _ => groups n
    | _ => return ()

/-- The declarations of a program, which may be left out. -/
def declarations (n : Nat) : Execution Unit := do
  let here ← current
  match here.token with
  | .keyword .var =>
    let _ ← expect (.keyword .var)
    groups n
  | _ => return ()

end MiniPascal.Execution
