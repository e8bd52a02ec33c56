import MiniPascal.Dictionary
import MiniPascal.Store

/-!
# Environments

An environment keeps the variables of a program in three collections: the symbols by their names,
the values by their names, and the names in the order of their declarations. Each operation looks at
the symbols before it changes anything, and a change takes one step for each collection. What is
left of the environment is there also if the operation fails.

A `Store` is an environment as one list of variables.
-/

namespace MiniPascal

/-- How a name is declared. -/
structure Environment.Symbol where
  type : DataType
  span : Span
  deriving DecidableEq, Repr

/-- Symbols and values by their names, and the names in order of declaration. -/
structure Environment where
  symbolTable : Dictionary String Environment.Symbol := {}
  memoryTable : Dictionary String Value := {}
  order : List String := []

namespace Environment

/-- Declares a variable. If the name is taken, the symbol that has it is returned. -/
def declare (name : String) (type : DataType) (span : Span) :
    StateM Environment (Except Symbol Unit) := do
  match (← get).symbolTable.get? name with
  | some first => return .error first
  | none =>
    modify fun e ↦ { e with order := e.order ++ [name] }
    modify fun e ↦ { e with symbolTable := e.symbolTable.insert name { type, span } }
    return .ok ()

/-- Assigns to a declared variable a value of its type. -/
def assign (name : String) (v : Value) : StateM Environment (Except AssignFault Unit) := do
  match (← get).symbolTable.get? name with
  | none => return .error .undeclared
  | some symbol =>
    if symbol.type ≠ v.type then return .error (.typeMismatch symbol.type v.type)
    modify fun e ↦ { e with memoryTable := e.memoryTable.insert name v }
    return .ok ()

/-- How a name is declared. -/
def symbol? (e : Environment) (name : String) : Option Symbol := e.symbolTable.get? name

/-- The value of a name. -/
def value? (e : Environment) (name : String) : Option Value := e.memoryTable.get? name

/-- The names and types of all variables. -/
def symbols (e : Environment) : List (String × DataType) :=
  e.order.filterMap fun name ↦ (e.symbolTable.get? name).map fun symbol ↦ (name, symbol.type)

/-- The names and values of the variables that were assigned. -/
def memory (e : Environment) : List (String × Value) :=
  e.order.filterMap fun name ↦ (e.memoryTable.get? name).map fun v ↦ (name, v)

/-- The names and places of the variables that were never assigned. -/
def unassigned (e : Environment) : List (String × Span) :=
  (e.order.filter fun name ↦ (e.memoryTable.get? name).isNone).filterMap fun name ↦
    (e.symbolTable.get? name).map fun symbol ↦ (name, symbol.span)

end Environment

end MiniPascal
