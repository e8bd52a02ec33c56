import MiniPascal.Alphabet.Blank
import MiniPascal.Alphabet.Width

/-!
# Lines and cells

A source is shown line by line. A line starts at the front of the source or after a line feed, and
it is shown without the line feeds, carriage returns and null characters at its end. Each of its
characters takes a number of columns; a tab reaches to the next multiple of four.
-/

namespace MiniPascal.Snippet

/-- A line of a source. -/
structure Line where
  /-- The byte offset of the front of the line. -/
  start : Nat
  /-- The characters of the line with those that end it. -/
  chars : List Char

/-- The number of bytes of some characters. -/
def byteSize (cs : List Char) : Nat := cs.foldl (fun n c ↦ n + c.utf8Size) 0

/-- Splits after every line feed. The first argument is the line that is being read, its last
character first. -/
def splitLines : List Char → List Char → List (List Char)
  | line, [] => [line.reverse]
  | line, c :: cs =>
    if c = '\n' then (c :: line).reverse :: splitLines [] cs else splitLines (c :: line) cs

/-- Gives each line the offset it starts at. -/
def placeLines : Nat → List (List Char) → List Line
  | _, [] => []
  | start, cs :: rest => ⟨start, cs⟩ :: placeLines (start + byteSize cs) rest

/-- The lines of a source; there is at least one. -/
def lines (source : String) : List Line := placeLines 0 (splitLines [] source.toList)

/-- The number of the line that an offset lies on, from zero: the last line that starts at or before
it. -/
def lineIndex (ls : List Line) (offset : Nat) : Nat :=
  (ls.takeWhile fun l ↦ decide (l.start ≤ offset)).length - 1

namespace Line

/-- Characters that end a line and are not shown. -/
def isEnding (c : Char) : Bool := c = '\n' || c = '\r' || c = Char.ofNat 0

/-- The characters shown. -/
def shown (l : Line) : List Char := (l.chars.reverse.dropWhile isEnding).reverse

/-- The column of an offset: the number of characters of the line that end at or before it, and
one. -/
def column (l : Line) (offset : Nat) : Nat :=
  let rec ended (position : Nat) : List Char → Nat
    | [] => 0
    | c :: cs =>
      let stop := position + c.utf8Size
      if stop ≤ offset then 1 + ended stop cs else 0
  1 + ended l.start l.chars

end Line

/-- A character of a line with the place and the room it takes. -/
structure Cell where
  char : Char
  /-- The byte offset of the character within its line. -/
  start : Nat
  /-- The byte offset after the character within its line. -/
  stop : Nat
  /-- The number of columns. -/
  width : Nat

/-- The distance between tab stops. -/
def tabWidth : Nat := 4

/-- The cells of characters from a byte offset and a column on. -/
def cellsFrom (offset column : Nat) : List Char → List Cell
  | [] => []
  | c :: cs =>
    let width := if c = '\t' then tabWidth - column % tabWidth else Alphabet.width c
    ⟨c, offset, offset + c.utf8Size, width⟩ :: cellsFrom (offset + c.utf8Size) (column + width) cs

/-- The cells of the characters shown. -/
def cells (shown : List Char) : List Cell := cellsFrom 0 0 shown

/-- A character repeated. -/
def row (n : Nat) (c : Char) : String := String.ofList (List.replicate n c)

/-- The text of a cell; a tab is shown as spaces. -/
def Cell.text (c : Cell) : String := if c.char = '\t' then row c.width ' ' else c.char.toString

/-- Texts one after the other. -/
def concat (texts : List String) : String := texts.foldl (· ++ ·) ""

/-- The number of bytes of the blanks that a line starts with. -/
def indentSize (shown : List Char) : Nat := byteSize (shown.takeWhile Alphabet.isBlank)

end MiniPascal.Snippet
