import MiniPascal.Listing.Instruction

/-!
# Listings

A listing is the list of instructions emitted so far. It only ever grows at its end.
-/

namespace MiniPascal

/-- The instructions emitted so far. -/
structure Listing where
  instructions : Array Instruction := #[]

namespace Listing

/-- The listing with nothing in it. -/
def empty : Listing := {}

/-- The instructions in the order they were emitted. -/
def toList (l : Listing) : List Instruction := l.instructions.toList

/-- The number of instructions. -/
def size (l : Listing) : Nat := l.instructions.size

/-- Adds one instruction. -/
def emit (l : Listing) (i : Instruction) : Listing := ⟨l.instructions.push i⟩

/-- The declaration of a variable. -/
def declare (l : Listing) (name : String) (type : DataType) : Listing :=
  l.emit (.declare name type)

/-- A constant is put on the stack. -/
def pushImmediate (l : Listing) (v : Value) : Listing := l.emit (.unary .pushImmediate (.value v))

/-- The value of a variable is put on the stack. -/
def pushVariable (l : Listing) (name : String) : Listing := l.emit (.unary .push (.variable name))

/-- A value is negated. -/
def negate (l : Listing) (v : Value) : Listing := l.emit (.unary .negate (.value v))

/-- A jump to the loop at an address. -/
def jump (l : Listing) (op : Opcode) (address : Nat) : Listing :=
  l.emit (.unary op (.address address))

/-- An operation on two values, and a `<POP>` for the one that is used up. -/
def arithmetic (l : Listing) (op : Opcode) (left right : Value) : Listing :=
  (l.emit (.binary op (.value left) (.value right))).emit .pop

/-- A value is stored in a variable. -/
def move (l : Listing) (name : String) (v : Value) : Listing :=
  l.emit (.binary .move (.variable name) (.value v))

/-- The address of a loop is noted. -/
def markLoop (l : Listing) (address : Nat) : Listing :=
  l.emit (.binary .move .returnAddress (.address address))

/-- The lines of the listing. -/
def lines (l : Listing) : List String := l.toList.map Instruction.text

@[simp] theorem toList_empty : empty.toList = [] := rfl

@[simp] theorem toList_emit (l : Listing) (i : Instruction) :
    (l.emit i).toList = l.toList ++ [i] := by
  simp [emit, toList]

@[simp] theorem length_toList (l : Listing) : l.toList.length = l.size := rfl

end Listing

end MiniPascal
