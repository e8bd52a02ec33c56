import MiniPascal.Span
import MiniPascal.Value.Basic

/-!
# Tokens

The tokens of the language: identifiers, numbers, twelve keywords and eighteen symbols, and a last
one for the end of the text. A `Lexeme` is a token with the place it was read from.
-/

namespace MiniPascal

/-- The reserved words. -/
inductive Keyword where
  | program
  | var
  | blockBegin
  | blockEnd
  | loopRepeat
  | loopUntil
  | loopBreak
  | loopContinue
  | typeInteger
  | typeReal
  | typeBoolean
  | div
  deriving DecidableEq, Repr

/-- The operators and punctuation marks. -/
inductive Symbol where
  | plus
  | minus
  | star
  | slash
  | percent
  | equal
  | notEqual
  | less
  | lessEqual
  | greater
  | greaterEqual
  | assign
  | dot
  | comma
  | colon
  | semicolon
  | openParen
  | closeParen
  deriving DecidableEq, Repr

/-- A token. Numbers carry their value, since two spellings of a number are the same token. -/
inductive Token where
  | identifier (name : String)
  | integer (n : Int64)
  | real (x : Float)
  | keyword (k : Keyword)
  | symbol (s : Symbol)
  | endOfInput
  deriving Inhabited

/-- A token and the span of the text it was read from. -/
structure Lexeme where
  token : Token
  span : Span
  deriving Inhabited

/-- How a keyword is spelled. -/
def Keyword.text : Keyword → String
  | .program => "PROGRAM"
  | .var => "VAR"
  | .blockBegin => "BEGIN"
  | .blockEnd => "END"
  | .loopRepeat => "REPEAT"
  | .loopUntil => "UNTIL"
  | .loopBreak => "BREAK"
  | .loopContinue => "CONTINUE"
  | .typeInteger => "INTEGER"
  | .typeReal => "REAL"
  | .typeBoolean => "BOOLEAN"
  | .div => "DIV"

/-- Every keyword. -/
def Keyword.all : List Keyword :=
  [.program, .var, .blockBegin, .blockEnd, .loopRepeat, .loopUntil, .loopBreak, .loopContinue,
   .typeInteger, .typeReal, .typeBoolean, .div]

/-- The keyword spelled by a word; the case of the letters counts. -/
def Keyword.ofText? (word : String) : Option Keyword :=
  Keyword.all.find? fun k ↦ k.text == word

/-- How a symbol is spelled. -/
def Symbol.text : Symbol → String
  | .plus => "+"
  | .minus => "-"
  | .star => "*"
  | .slash => "/"
  | .percent => "%"
  | .equal => "="
  | .notEqual => "<>"
  | .less => "<"
  | .lessEqual => "<="
  | .greater => ">"
  | .greaterEqual => ">="
  | .assign => ":="
  | .dot => "."
  | .comma => ","
  | .colon => ":"
  | .semicolon => ";"
  | .openParen => "("
  | .closeParen => ")"

/-- The type named by a keyword. `BOOLEAN` is reserved but names no type. -/
def Keyword.dataType? : Keyword → Option DataType
  | .typeInteger => some .integer
  | .typeReal => some .real
  | _ => none

namespace Token

/-- The type named by a token. -/
def dataType? : Token → Option DataType
  | .keyword k => k.dataType?
  | _ => none

/-- Whether a token is a reserved word. -/
def isReserved : Token → Bool
  | .keyword _ => true
  | _ => false

/-- Equality of tokens, where reals are compared as numbers: NaN equals nothing and both zeros are
equal. -/
def same : Token → Token → Bool
  | .identifier a, .identifier b => a == b
  | .integer a, .integer b => a == b
  | .real a, .real b => a == b
  | .keyword a, .keyword b => a == b
  | .symbol a, .symbol b => a == b
  | .endOfInput, .endOfInput => true
  | _, _ => false

@[simp] theorem same_keyword_iff {t : Token} {k : Keyword} :
    t.same (.keyword k) = true ↔ t = .keyword k := by
  cases t <;> simp [same]

@[simp] theorem same_symbol_iff {t : Token} {s : Symbol} :
    t.same (.symbol s) = true ↔ t = .symbol s := by
  cases t <;> simp [same]

end Token

/-- The keyword of a spelling is the one so spelled. -/
theorem Keyword.ofText?_text (k : Keyword) : Keyword.ofText? k.text = some k := by
  cases k <;> decide

theorem Keyword.text_of_ofText? {word : String} {k : Keyword}
    (h : Keyword.ofText? word = some k) : k.text = word := by
  simpa using List.find?_some h

end MiniPascal
