import MiniPascal.Alphabet.Blank
import MiniPascal.Alphabet.Letter
import MiniPascal.Alphabet.Numeral
import MiniPascal.Scanner.Fault
import MiniPascal.Source.Placed
import MiniPascal.Token.Basic

/-!
# One token

`scan` reads one token off the front of what is left of a source. Blanks and comments in front of it
are skipped; a comment runs from a brace to the next closing one and does not nest. The token is
then the longest piece of text that spells one: a word, a number or a symbol.

What remains is always a tail of what was given (`scan_rest_suffix`), so a scanner can be moved back
by giving it an earlier tail.
-/

namespace MiniPascal

open Alphabet

/-- A character that may continue a word. -/
def isWordPart (c : Char) : Bool := isLetter c || isNumeral c

/-- The number written by a row of decimal digits. -/
def decimalValue (digits : List Char) : Nat :=
  digits.foldl (fun n c ↦ 10 * n + (c.toNat - 48)) 0

/-! ## Layout -/

/-- Skips blanks and comments. The argument is the offset of the comment that is open, if one is;
it is returned when the comment is still open at the end of the source. -/
def skipLayout : Option Nat → List Placed → Option Nat × List Placed
  | opened, [] => (opened, [])
  | some start, p :: ps => skipLayout (if p.char = '}' then none else some start) ps
  | none, p :: ps =>
    if p.char = '{' then skipLayout (some p.offset) ps
    else if isBlank p.char then skipLayout none ps
    else (none, p :: ps)

theorem skipLayout_suffix (opened : Option Nat) (ps : List Placed) :
    (skipLayout opened ps).2 <:+ ps := by
  induction ps generalizing opened with
  | nil => cases opened <;> exact List.suffix_rfl
  | cons p ps ih =>
    cases opened with
    | some start => exact (ih _).trans (List.suffix_cons p ps)
    | none =>
      unfold skipLayout
      split
      · exact (ih _).trans (List.suffix_cons p ps)
      · split
        · exact (ih _).trans (List.suffix_cons p ps)
        · exact List.suffix_rfl

/-! ## The text of a token -/

/-- What the text after the layout amounts to, with what remains after it. -/
inductive Reading where
  | token (t : Token) (rest : List Placed)
  | integerTooLarge (rest : List Placed)
  | unrecognized

/-- The token of a word: a keyword if it spells one. -/
def wordToken (word : String) : Token :=
  match Keyword.ofText? word with
  | some k => .keyword k
  | none => .identifier word

/-- A word: the longest row of letters and numerals. -/
def readWord (ps : List Placed) : Reading :=
  let word := ps.takeWhile fun p ↦ isWordPart p.char
  .token (wordToken (String.ofList (word.map Placed.char))) (ps.dropWhile fun p ↦ isWordPart p.char)

/-- The token of a row of digits, if its value fits. -/
def integerReading (digits : List Char) (rest : List Placed) : Reading :=
  if (decimalValue digits : Int) ≤ Value.maxInteger then
    .token (.integer (Int64.ofNat (decimalValue digits))) rest
  else .integerTooLarge rest

/-- The token of a row of digits, a point and another row: the nearest real. -/
def realToken (whole fraction : List Char) : Token :=
  .real (Float.ofScientific (decimalValue (whole ++ fraction)) true fraction.length)

/-- A number: a row of digits, and a fraction if a point with a digit after it follows. -/
def readNumber (ps : List Placed) : Reading :=
  let whole := (ps.takeWhile fun p ↦ p.char.isDigit).map Placed.char
  let rest := ps.dropWhile fun p ↦ p.char.isDigit
  match rest with
  | point :: digit :: more =>
    if point.char = '.' ∧ digit.char.isDigit then
      let fraction := ((digit :: more).takeWhile fun p ↦ p.char.isDigit).map Placed.char
      .token (realToken whole fraction) ((digit :: more).dropWhile fun p ↦ p.char.isDigit)
    else integerReading whole rest
  | _ => integerReading whole rest

/-- The longest symbol that starts with a character, given the character after it. -/
def symbol? (c : Char) (next : Option Char) : Option Symbol :=
  match c with
  | '+' => some .plus
  | '-' => some .minus
  | '*' => some .star
  | '/' => some .slash
  | '%' => some .percent
  | '(' => some .openParen
  | ')' => some .closeParen
  | '.' => some .dot
  | ',' => some .comma
  | ';' => some .semicolon
  | '=' => some .equal
  | ':' => some (if next = some '=' then .assign else .colon)
  | '<' =>
    some (if next = some '>' then .notEqual else if next = some '=' then .lessEqual else .less)
  | '>' => some (if next = some '=' then .greaterEqual else .greater)
  | _ => none

/-- A symbol, if one starts here. -/
def readSymbol (p : Placed) (ps : List Placed) : Reading :=
  match symbol? p.char (ps.head?.map Placed.char) with
  | some s => .token (.symbol s) ((p :: ps).drop s.text.length)
  | none => .unrecognized

/-- The token whose text starts at a character. -/
def readToken (p : Placed) (ps : List Placed) : Reading :=
  if p.char.isDigit then readNumber (p :: ps)
  else if isLetter p.char then readWord (p :: ps)
  else readSymbol p ps

/-- What remains after a reading; a character that starts no token stays where it is. -/
def Reading.rest (ps : List Placed) : Reading → List Placed
  | .token _ rest => rest
  | .integerTooLarge rest => rest
  | .unrecognized => ps

private theorem integerReading_rest (digits : List Char) (ps rest : List Placed) :
    (integerReading digits rest).rest ps = rest := by
  unfold integerReading
  split <;> rfl

theorem readNumber_rest_suffix (ps qs : List Placed) : (readNumber ps).rest qs <:+ ps := by
  have hwhole : (ps.dropWhile fun p ↦ p.char.isDigit) <:+ ps := List.dropWhile_suffix _
  unfold readNumber
  dsimp only
  split
  · next point digit more hrest =>
    split
    · have hmore : digit :: more <:+ ps := by
        refine List.IsSuffix.trans (List.suffix_cons point _) ?_
        rw [← hrest]
        exact hwhole
      exact (List.dropWhile_suffix _).trans hmore
    · rw [integerReading_rest]
      exact hwhole
  · rw [integerReading_rest]
    exact hwhole

theorem readToken_rest_suffix (p : Placed) (ps : List Placed) :
    (readToken p ps).rest (p :: ps) <:+ p :: ps := by
  unfold readToken
  split
  · exact readNumber_rest_suffix _ _
  · split
    · exact List.dropWhile_suffix _
    · unfold readSymbol
      split
      · exact List.drop_suffix _ _
      · exact List.suffix_rfl

/-! ## Scanning -/

/-- The outcome of scanning for one token. -/
structure Scan where
  /-- The token with its span, or why there is none. -/
  result : Except LexicalFault Lexeme
  /-- The start of a comment that is still open at the end of the source. -/
  openComment : Option Nat
  /-- What remains of the source. -/
  rest : List Placed

/-- The offset at which the remaining source starts; at the end of the source, its end. -/
def offsetAt (source : List Placed) : List Placed → Nat
  | p :: _ => p.offset
  | [] => Placed.endOffset source

/-- Reads one token off the front of what is left of a source. The token's span runs from its first
character to whatever comes after it. -/
def scan (source rest : List Placed) : Scan :=
  let (openComment, rest) := skipLayout none rest
  match rest with
  | [] =>
    let stop := Placed.endOffset source
    ⟨.ok ⟨.endOfInput, ⟨stop, stop⟩⟩, openComment, []⟩
  | p :: ps =>
    match readToken p ps with
    | .token t rest => ⟨.ok ⟨t, ⟨p.offset, offsetAt source rest⟩⟩, openComment, rest⟩
    | .integerTooLarge rest =>
      ⟨.error ⟨.integerTooLarge, ⟨p.offset, offsetAt source rest⟩⟩, openComment, rest⟩
    | .unrecognized => ⟨.error ⟨.unrecognized p.char, ⟨p.offset, p.stop⟩⟩, openComment, p :: ps⟩

/-- What remains is a tail of what was given. -/
theorem scan_rest_suffix (source rest : List Placed) : (scan source rest).rest <:+ rest := by
  have hlayout := skipLayout_suffix none rest
  unfold scan
  revert hlayout
  obtain ⟨openComment, after⟩ := skipLayout none rest
  intro hlayout
  cases after with
  | nil => exact List.nil_suffix
  | cons p ps =>
    have htoken := readToken_rest_suffix p ps
    revert htoken
    simp only
    cases readToken p ps <;> intro htoken <;> exact htoken.trans hlayout

end MiniPascal
