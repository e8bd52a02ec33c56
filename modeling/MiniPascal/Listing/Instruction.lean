import MiniPascal.Operator

/-!
# Instructions

The instructions that a program is compiled to, with their text. Arithmetic instructions carry the
values they were executed with, and jumps carry the number of the character at which their loop
starts.
-/

namespace MiniPascal

/-- What an instruction does. -/
inductive Opcode where
  | pushImmediate
  | push
  | negate
  | jump (c : Comparison)
  | arithmetic (o : Operator)
  | move
  deriving DecidableEq, Repr

/-- The operator's instruction. -/
def Operator.mnemonic : Operator → String
  | .add => "ADD"
  | .sub => "SUB"
  | .mul => "MUL"
  | .integerDiv => "DIV"
  | .realDiv => "FDIV"
  | .modulo => "MOD"

/-- The comparison's jump. -/
def Comparison.mnemonic : Comparison → String
  | .greaterEqual => "JGE"
  | .greater => "JG"
  | .lessEqual => "JLE"
  | .less => "JL"
  | .equal => "JE"
  | .notEqual => "JNE"

/-- The name of an operation in the listing. -/
def Opcode.mnemonic : Opcode → String
  | .pushImmediate => "PUSHI"
  | .push => "PUSH"
  | .negate => "NEG"
  | .jump c => c.mnemonic
  | .arithmetic o => o.mnemonic
  | .move => "MOV"

/-- Every operation. -/
def Opcode.all : List Opcode :=
  [.pushImmediate, .push, .negate, .jump .greaterEqual, .jump .greater, .jump .lessEqual,
   .jump .less, .jump .equal, .jump .notEqual, .arithmetic .add, .arithmetic .sub,
   .arithmetic .mul, .arithmetic .integerDiv, .arithmetic .realDiv, .arithmetic .modulo, .move]

/-- The operation with a given name. -/
def Opcode.ofMnemonic? (name : String) : Option Opcode :=
  Opcode.all.find? fun o ↦ o.mnemonic == name

/-- What an instruction works on. -/
inductive Operand where
  | value (v : Value)
  | variable (name : String)
  /-- The number of characters before a loop. -/
  | address (n : Nat)
  /-- The register that holds the address of the loop. -/
  | returnAddress

/-- An operand in the listing. -/
def Operand.text : Operand → String
  | .value v => v.text
  | .variable name => name
  | .address n => toString n
  | .returnAddress => "$ra"

/-- An instruction of the listing. -/
inductive Instruction where
  | unary (op : Opcode) (operand : Operand)
  | binary (op : Opcode) (left right : Operand)
  | declare (name : String) (type : DataType)
  | pop

namespace Instruction

/-- The operation of an instruction; declarations and `<POP>` have none. -/
def opcode? : Instruction → Option Opcode
  | .unary op _ => some op
  | .binary op _ _ => some op
  | .declare _ _ => none
  | .pop => none

/-- An instruction as a line of the listing. -/
def text : Instruction → String
  | .unary op operand => "< " ++ op.mnemonic ++ " " ++ operand.text ++ " >"
  | .binary op left right =>
    "< " ++ op.mnemonic ++ " " ++ left.text ++ " " ++ right.text ++ " >"
  | .declare name type => name ++ ": .word " ++ type.text
  | .pop => "<POP>"

end Instruction

end MiniPascal
