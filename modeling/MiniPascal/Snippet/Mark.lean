import MiniPascal.Snippet.Line

/-!
# Marks under a line

The labels that lie on one line are drawn under it: carets below the text they mark and, after them,
the message of the last label if nothing is in its way. The messages that remain hang below, each
under the start of its label.
-/

namespace MiniPascal.Snippet

/-- A label on part of a line, by byte offsets within the line. -/
structure Mark where
  primary : Bool
  start : Nat
  stop : Nat
  message : String
  deriving DecidableEq

namespace Mark

/-- By start, then by end. -/
def order (a b : Mark) : Ordering :=
  (compare a.start b.start).then (compare a.stop b.stop)

/-- Whether the mark covers part of a range. -/
def overlaps (m : Mark) (start stop : Nat) : Bool := max m.start start < min m.stop stop

/-- Puts a mark among sorted ones. Of marks on one range the first one given stays last. -/
def insert (m : Mark) (ms : List Mark) : List Mark :=
  let below := ms.filter fun x ↦ x.order m == .lt
  let same := ms.filter fun x ↦ x.order m == .eq
  let above := ms.filter fun x ↦ x.order m == .gt
  below ++ same.dropLast ++ [m] ++ same.getLast?.toList ++ above

/-- Marks in the order they are drawn. -/
def sort (ms : List Mark) : List Mark := ms.foldl (fun sorted m ↦ insert m sorted) []

end Mark

/-- The greatest of some numbers. -/
def greatest (ns : List Nat) : Nat := ns.foldl max 0

/-- The index of the mark whose message stands after the carets: the last one that reaches furthest
to the right, if it has a message and shares no text with another mark. The arguments are the index
of the first mark, the furthest end so far and the choice so far. -/
def trailingFrom : Nat → Nat → Option Nat → List Mark → Option Nat
  | _, _, choice, [] => choice
  | i, reach, choice, m :: ms =>
    let reach := max reach m.stop
    let choice :=
      if m.stop = reach then (if m.message.isEmpty then none else some i) else choice
    trailingFrom (i + 1) reach choice ms

/-- The index of the mark whose message stands after the carets. -/
def trailing? (ms : List Mark) : Option Nat := do
  let i ← trailingFrom 0 0 none ms
  let chosen ← ms[i]?
  if (ms.eraseIdx i).any fun m ↦ m.overlaps chosen.start chosen.stop then none else some i

/-- The marks whose messages hang below the carets. -/
def hanging (ms : List Mark) : List Mark :=
  let others := match trailing? ms with
    | some i => ms.eraseIdx i
    | none => ms
  others.filter fun m ↦ !m.message.isEmpty

/-- What is drawn under a cell: a caret if a mark covers it, a space up to the end of the last mark,
and nothing after that. -/
def caret (ms : List Mark) (start stop width : Nat) : String :=
  let covering := ms.filter fun m ↦ m.overlaps start stop
  if covering.any Mark.primary then row width '^'
  else if !covering.isEmpty then row width '-'
  else if start < greatest (ms.map Mark.stop) then row width ' '
  else ""

/-- The carets under a line. One more column stands for the end of the line. -/
def carets (shown : List Char) (ms : List Mark) : String :=
  let size := byteSize shown
  concat ((cells shown).map fun c ↦ caret ms c.start c.stop c.width)
    ++ caret ms size (size + 1) 1

/-- The message after the carets. -/
def trailingMessage (ms : List Mark) : String :=
  match (trailing? ms).bind (ms[·]?) with
  | some m => " " ++ m.message
  | none => ""

/-- What is drawn under a cell between the carets and the hanging messages: a bar where one of these
starts. Spaces fill the line up to the start of the last mark. -/
def pointer (ms : List Mark) (c : Cell) : String :=
  let bar := (hanging ms).any fun m ↦ decide (c.start ≤ m.start) && decide (m.start < c.stop)
  let room := if bar then c.width - 1 else c.width
  (if bar then "│" else "")
    ++ (if c.start ≤ greatest (ms.map Mark.start) then row room ' ' else "")

/-- The bars down to the hanging messages. -/
def pointers (cs : List Cell) (ms : List Mark) : String := concat (cs.map (pointer ms))

/-- The lines drawn under a line for its marks, without what stands in front of them. -/
def markLines (shown : List Char) (ms : List Mark) : List String :=
  if ms.isEmpty then []
  else
    let first := carets shown ms ++ trailingMessage ms
    if (hanging ms).isEmpty then [first]
    else
      let below := (hanging ms).reverse.map fun m ↦
        pointers ((cells shown).takeWhile fun c ↦ decide (c.start < m.start)) ms ++ m.message
      first :: pointers (cells shown) ms :: below

end MiniPascal.Snippet
