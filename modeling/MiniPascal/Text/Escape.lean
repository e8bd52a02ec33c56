import MiniPascal.Alphabet.Extending
import MiniPascal.Alphabet.Unprintable

/-!
# Escaped characters and quoted text

Messages show characters so that they can be told apart: the usual control characters by a letter,
quotes and the backslash behind a backslash, and every character that leaves no mark or would join
its neighbour by its code point.
-/

namespace MiniPascal.Text

/-- A character by its code point, in lower-case hexadecimal without padding. -/
def codePoint (c : Char) : String :=
  "\\u\x7b" ++ String.ofList (Nat.toDigits 16 c.toNat) ++ "\x7d"

/-- A character as it stands in quoted text. -/
def escape (c : Char) : String :=
  if c = Char.ofNat 0 then "\\0"
  else if c = '\t' then "\\t"
  else if c = '\r' then "\\r"
  else if c = '\n' then "\\n"
  else if c = '"' then "\\\""
  else if c = '\\' then "\\\\"
  else if Alphabet.isExtending c || Alphabet.isUnprintable c then codePoint c
  else c.toString

/-- A character shown alone: the single quote is escaped as well. -/
def escapeAlone (c : Char) : String :=
  if c = Char.ofNat 39 then "\\'" else escape c

/-- Text between double quotes. -/
def quote (s : String) : String :=
  "\"" ++ s.toList.foldl (fun acc c ↦ acc ++ escape c) "" ++ "\""

end MiniPascal.Text
