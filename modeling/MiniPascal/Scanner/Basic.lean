import MiniPascal.Scanner.Scan
import MiniPascal.Source.Boundary

/-!
# Scanners

A scanner is a position in a source: the whole source and the tail of it that is still to be read.
Because the source is kept, the position can be moved back as well as forward. A scanner also
remembers the last comment it found open at the end of the source, whatever it reads afterwards.
-/

namespace MiniPascal

/-- A position in a source. -/
structure Scanner where
  source : List Placed
  /-- What is still to be read. -/
  rest : List Placed
  /-- The comment found open at the end of the source, if any was. -/
  openComment : Option Span
  suffix : rest <:+ source

namespace Scanner

/-- A scanner at the front of a source. -/
def ofPlaced (source : List Placed) : Scanner := ⟨source, source, none, List.suffix_rfl⟩

/-- A scanner at the front of a text. -/
def ofString (s : String) : Scanner := ofPlaced (Placed.ofString s)

/-- The number of characters before the position. -/
def cursor (s : Scanner) : Nat := s.source.length - s.rest.length

/-- The byte offset of the position. -/
def offset (s : Scanner) : Nat := offsetAt s.source s.rest

/-- The byte offset of the end of the source. -/
def endOffset (s : Scanner) : Nat := Placed.endOffset s.source

/-- The character after the one at the position. -/
def peek? (s : Scanner) : Option Char := s.rest.tail.head?.map Placed.char

/-- The number of characters that start before a byte offset. An offset inside a character so names
the next one. -/
def charIndex (s : Scanner) (offset : Nat) : Nat :=
  boundary (fun p ↦ p.offset < offset) s.source

theorem charIndex_eq_length_takeWhile {s : Scanner}
    (h : s.source.Pairwise fun p q ↦ p.offset < q.offset) (offset : Nat) :
    s.charIndex offset = (s.source.takeWhile fun p ↦ p.offset < offset).length := by
  refine boundary_eq_length_takeWhile (h.imp fun hpq hq ↦ ?_)
  simp only [decide_eq_true_eq] at hq ⊢
  omega

/-- Moves to the character with a given number, or to the end if there are fewer. -/
def seek (s : Scanner) (n : Nat) : Scanner :=
  { s with rest := s.source.drop n, suffix := List.drop_suffix n s.source }

/-- Reads one token and moves past it. -/
def next (s : Scanner) : Except LexicalFault Lexeme × Scanner :=
  let found := scan s.source s.rest
  (found.result,
    { s with
      rest := found.rest
      suffix := (scan_rest_suffix s.source s.rest).trans s.suffix
      openComment :=
        match found.openComment with
        | some start => some ⟨start, s.endOffset⟩
        | none => s.openComment })

/-- Reads tokens up to the end of the source or the first fault, both included, but at most `n`. -/
def take : Nat → Scanner → List (Except LexicalFault Lexeme) × Scanner
  | 0, s => ([], s)
  | n + 1, s =>
    let (result, s) := s.next
    match result with
    | .ok ⟨.endOfInput, _⟩ => ([result], s)
    | .ok _ =>
      let (results, s) := take n s
      (result :: results, s)
    | .error _ => ([result], s)

/-- Reads tokens up to the end of the source or the first fault, both included. Every token but the
last takes a character, so one more than there are characters is enough. -/
def all (s : Scanner) : List (Except LexicalFault Lexeme) × Scanner := take (s.rest.length + 1) s

end Scanner

end MiniPascal
