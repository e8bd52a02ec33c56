import MiniPascal.Span
import MiniPascal.Value.Basic

/-!
# Stores

A store holds the declared variables in the order of their declarations, each with its type, the
place of its declaration and, once it was assigned, its last value. A name is declared at most once
and keeps its type; a failing operation leaves the store as it was.
-/

namespace MiniPascal

/-- A declared variable. -/
structure Variable where
  name : String
  type : DataType
  /-- Where it was declared. -/
  span : Span
  /-- The last value assigned to it. -/
  value : Option Value := none

/-- Why an assignment fails. -/
inductive AssignFault where
  | undeclared
  | typeMismatch (expected got : DataType)
  deriving DecidableEq, Repr

/-- The declared variables, in order of declaration. -/
structure Store where
  declared : List Variable := []

namespace Store

/-- The store without variables. -/
def empty : Store := {}

/-- The variable with a given name. -/
def find? (s : Store) (name : String) : Option Variable :=
  s.declared.find? fun v ↦ v.name == name

/-- The value of a variable, if it is declared and assigned. -/
def value? (s : Store) (name : String) : Option Value := (s.find? name).bind Variable.value

/-- Declares a variable. If the name is taken, the variable that has it is returned. -/
def declare (s : Store) (name : String) (type : DataType) (span : Span) : Except Variable Store :=
  match s.find? name with
  | some first => .error first
  | none => .ok ⟨s.declared ++ [{ name, type, span }]⟩

/-- Gives a variable a value. -/
def set (s : Store) (name : String) (v : Value) : Store :=
  ⟨s.declared.map fun x ↦ if x.name == name then { x with value := some v } else x⟩

/-- Assigns to a declared variable a value of its type. -/
def assign (s : Store) (name : String) (v : Value) : Except AssignFault Store :=
  match s.find? name with
  | none => .error .undeclared
  | some x => if x.type = v.type then .ok (s.set name v) else .error (.typeMismatch x.type v.type)

/-- The names and types of all variables. -/
def symbols (s : Store) : List (String × DataType) := s.declared.map fun x ↦ (x.name, x.type)

/-- The names and values of the variables that were assigned. -/
def memory (s : Store) : List (String × Value) :=
  s.declared.filterMap fun x ↦ x.value.map fun v ↦ (x.name, v)

/-- The names and places of the variables that were never assigned. -/
def unassigned (s : Store) : List (String × Span) :=
  s.declared.filterMap fun x ↦ if x.value.isNone then some (x.name, x.span) else none

@[simp] theorem symbols_set (s : Store) (name : String) (v : Value) :
    (s.set name v).symbols = s.symbols := by
  simp only [symbols, set, List.map_map]
  refine List.map_congr_left fun x _ ↦ ?_
  by_cases h : x.name = name <;> simp [h]

end Store

end MiniPascal
