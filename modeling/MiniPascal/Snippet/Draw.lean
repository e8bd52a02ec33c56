import MiniPascal.Diagnostic.Basic
import MiniPascal.Snippet.Mark

/-!
# Drawing a snippet

A snippet shows the lines of a source that labels lie on, with their numbers, under the path and the
position of the primary label. The primary label may run over several lines; then a bar in front of
the text joins its first and its last line, and of the lines between only those near the ends are
shown. A gap of one line is filled, a wider one is drawn as a dot.
-/

namespace MiniPascal.Snippet

/-- The lines that a label reaches over, from zero. -/
structure Reach where
  first : Nat
  last : Nat

/-- The lines that a span reaches over. An end just after a line feed lies on the next line. -/
def reach (ls : List Line) (s : Span) : Reach := ⟨lineIndex ls s.start, lineIndex ls s.stop⟩

/-- Whether a label lies on one line. -/
def Reach.single (r : Reach) : Bool := r.first == r.last

/-- How a line belongs to the primary label if that one runs over several lines: as its first line,
one between, or its last one, with the byte offset within the line. -/
inductive Edge where
  | top (start : Nat)
  | inside
  | bottom (stop : Nat)

/-- How many lines are shown after the first line of a label. -/
def linesAfterTop : Nat := 3

/-- How many lines are shown before the last line of a label. -/
def linesBeforeBottom : Nat := 1

/-- What a snippet is drawn from. -/
structure Drawing where
  lines : List Line
  location : Location

namespace Drawing

/-- The start of the line with a given index. -/
def lineStart (d : Drawing) (i : Nat) : Nat := (d.lines[i]?.map Line.start).getD 0

/-- The characters shown of the line with a given index. -/
def shown (d : Drawing) (i : Nat) : List Char := (d.lines[i]?.map Line.shown).getD []

/-- The lines of the primary label. -/
def primary (d : Drawing) : Reach := reach d.lines d.location.label.span

/-- Whether the primary label runs over several lines. -/
def isMultiline (d : Drawing) : Bool := !d.primary.single

/-- A label as a mark on its line. It covers at least one byte. -/
def mark (d : Drawing) (primary : Bool) (l : Label) : Mark :=
  let start := l.span.start - d.lineStart (lineIndex d.lines l.span.start)
  let stop := l.span.stop - d.lineStart (lineIndex d.lines l.span.start)
  ⟨primary, start, max stop (start + 1), l.message⟩

/-- The marks on a line, in the order they are drawn. -/
def marks (d : Drawing) (i : Nat) : List Mark :=
  let here (l : Label) : Bool :=
    let r := reach d.lines l.span
    r.single && r.first == i
  let primary := ([d.location.label].filter here).map (d.mark true)
  let others := (d.location.extra.filter here).map (d.mark false)
  Mark.sort (primary ++ others)

/-- How a line belongs to a primary label of several lines. -/
def edge? (d : Drawing) (i : Nat) : Option Edge :=
  let r := d.primary
  if r.single then none
  else if i = r.first then some (.top (d.location.label.span.start - d.lineStart i))
  else if i = r.last then some (.bottom (d.location.label.span.stop - d.lineStart i))
  else if r.first < i ∧ i < r.last then some .inside
  else none

/-- Whether a line is shown. -/
def isShown (d : Drawing) (i : Nat) : Bool :=
  !(d.marks i).isEmpty ||
    match d.edge? i with
    | none => false
    | some .inside =>
      decide (i - d.primary.first ≤ linesAfterTop)
        || decide (d.primary.last - i ≤ linesBeforeBottom)
    | some _ => true

/-- The width of the line numbers. -/
def numberWidth (d : Drawing) : Nat :=
  let last (l : Label) : Nat := (reach d.lines l.span).last + 1
  (toString (greatest ((d.location.label :: d.location.extra).map last))).length

/-- The room of the line numbers, left blank. -/
def gutter (d : Drawing) : String := row (d.numberWidth + 1) ' '

/-- The number of a line. -/
def numberedGutter (d : Drawing) (i : Nat) : String :=
  let number := toString (i + 1)
  row (d.numberWidth - number.length) ' ' ++ number ++ " "

/-- Whether the label of several lines starts before any text of its first line. -/
def startsInFront (d : Drawing) (i start : Nat) : Bool := decide (start ≤ indentSize (d.shown i))

/-- The bar of the primary label in front of the text of a line. -/
def sourceBar (d : Drawing) (i : Nat) : String :=
  if d.isMultiline then
    match d.edge? i with
    | some (.top start) => if d.startsInFront i start then " ╭" else "  "
    | some _ => " │"
    | none => "  "
  else ""

/-- The bar of the primary label under a line. -/
def lowerBar (d : Drawing) (i : Nat) : String :=
  if d.isMultiline then
    match d.edge? i with
    | some (.top _) => "  "
    | some _ => " │"
    | none => "  "
  else ""

/-- The lines that join the bar of the primary label to its start or its end. -/
def edgeLines (d : Drawing) (i : Nat) : List String :=
  let rule (keep : Nat → Bool) : String :=
    concat (((cells (d.shown i)).takeWhile fun c ↦ keep c.start).map fun c ↦ row c.width '─')
  match d.edge? i with
  | some (.top start) =>
    if d.startsInFront i start then []
    else [" ╭" ++ rule (fun n ↦ decide (n ≤ start)) ++ "^"]
  | some (.bottom stop) =>
    let message := d.location.label.message
    [" ╰" ++ rule (fun n ↦ decide (n < stop)) ++ "^"
      ++ (if message.isEmpty then "" else " " ++ message)]
  | _ => []

/-- A line of the source with its number and the marks under it. -/
def sourceLines (d : Drawing) (i : Nat) (ms : List Mark) : List String :=
  [d.numberedGutter i ++ "│" ++ d.sourceBar i ++ " " ++ concat ((cells (d.shown i)).map Cell.text)]
    ++ (markLines (d.shown i) ms).map (fun line ↦ d.gutter ++ "│" ++ d.lowerBar i ++ " " ++ line)
    ++ (d.edgeLines i).map fun line ↦ d.gutter ++ "│" ++ line

/-- What stands between a shown line and the next shown one. -/
def between (d : Drawing) (i next : Nat) : List String :=
  if next = i + 1 then []
  else if next = i + 2 then d.sourceLines (i + 1) []
  else [d.gutter ++ "·" ++ d.lowerBar i]

/-- The shown lines with what stands between them. -/
def body (d : Drawing) : List Nat → List String
  | [] => []
  | [i] => d.sourceLines i (d.marks i)
  | i :: next :: rest => d.sourceLines i (d.marks i) ++ d.between i next ++ d.body (next :: rest)

/-- The line and the column of the primary label, from one. -/
def position (d : Drawing) : String :=
  let offset := d.location.label.span.start
  let i := lineIndex d.lines offset
  toString (i + 1) ++ ":" ++ toString ((d.lines[i]?.map fun l ↦ l.column offset).getD 1)

/-- The lines of the snippet, with an empty one at the end. -/
def output (d : Drawing) : List String :=
  [d.gutter ++ "┌─ " ++ d.location.path ++ ":" ++ d.position,
    d.gutter ++ "│" ++ (if d.isMultiline then "  " else "")]
    ++ d.body ((List.range d.lines.length).filter d.isShown)
    ++ [""]

end Drawing

/-- The snippet of a location. -/
def draw (location : Location) : String :=
  concat ((Drawing.output ⟨lines location.source, location⟩).map (· ++ "\n"))

end MiniPascal.Snippet
