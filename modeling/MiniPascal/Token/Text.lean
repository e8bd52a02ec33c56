import MiniPascal.Text.Escape
import MiniPascal.Token.Basic

/-!
# How tokens are written

Three ways: `text` spells a token as it could stand in a program, `describe` names it in a message,
and `label` shows its kind and content, as the token listing does.
-/

namespace MiniPascal

/-- The text of a real literal: the shortest decimal, positional from a ten-thousandth up to, but
not including, ten quadrillion and scientific beyond. -/
def realLiteral (x : Float) : String :=
  match Binary64.parts x with
  | .nan => "NaN"
  | .infinite negative => Value.signed negative "inf"
  | .finite negative m =>
    Value.signed negative <|
      if m.mantissa = 0 then "0.0"
      else
        let d := Decimal.shortest m
        if -3 ≤ d.point ∧ d.point ≤ 16 then d.positional else d.scientific

/-- The name of a keyword's kind. -/
def Keyword.label : Keyword → String
  | .program => "Program"
  | .var => "Var"
  | .blockBegin => "Begin"
  | .blockEnd => "End"
  | .loopRepeat => "Repeat"
  | .loopUntil => "Until"
  | .loopBreak => "Break"
  | .loopContinue => "Continue"
  | .typeInteger => "Integer"
  | .typeReal => "Real"
  | .typeBoolean => "Boolean"
  | .div => "Div"

/-- Every symbol. -/
def Symbol.all : List Symbol :=
  [.plus, .minus, .star, .slash, .percent, .equal, .notEqual, .less, .lessEqual, .greater,
   .greaterEqual, .assign, .dot, .comma, .colon, .semicolon, .openParen, .closeParen]

/-- The name of a symbol's kind. -/
def Symbol.label : Symbol → String
  | .plus => "Plus"
  | .minus => "Minus"
  | .star => "Mult"
  | .slash => "FDiv"
  | .percent => "Mod"
  | .equal => "Equal"
  | .notEqual => "NotEqual"
  | .less => "Less"
  | .lessEqual => "LessEqual"
  | .greater => "Greater"
  | .greaterEqual => "GreaterEqual"
  | .assign => "Assign"
  | .dot => "Dot"
  | .comma => "Comma"
  | .colon => "Colon"
  | .semicolon => "Semicolon"
  | .openParen => "LParen"
  | .closeParen => "RParen"

namespace Token

/-- The spelling of a token. The end of the text has none. -/
def spelling? : Token → Option String
  | .identifier name => some name
  | .integer n => some (toString n.toInt)
  | .real x => some (realLiteral x)
  | .keyword k => some k.text
  | .symbol s => some s.text
  | .endOfInput => none

/-- The spelling of a token, or a word for the end of the text. -/
def text (t : Token) : String := t.spelling?.getD "EOF"

/-- How a token is named in a message. -/
def describe : Token → String
  | .identifier _ => "an identifier"
  | .integer _ => "an integer"
  | .real _ => "a real"
  | .keyword k => "the keyword `" ++ k.text ++ "`"
  | .symbol s => "`" ++ s.text ++ "`"
  | .endOfInput => "end of input"

/-- The name of a token's kind. -/
def kindLabel : Token → String
  | .identifier _ => "Ident"
  | .integer _ => "IntConst"
  | .real _ => "RealConst"
  | .keyword k => k.label
  | .symbol s => s.label
  | .endOfInput => "Eof"

/-- The kind of a token with its content. -/
def label : Token → String
  | .identifier name => "Ident(" ++ Text.quote name ++ ")"
  | .integer n => "IntConst(" ++ toString n.toInt ++ ")"
  | .real x => "RealConst(" ++ realLiteral x ++ ")"
  | t => t.kindLabel

end Token

end MiniPascal
