import MiniPascal.Diagnostic.Render

/-!
# What commands print

Commands print results to one stream and messages to another. Messages include status lines, which
start with a word aligned to the right.
-/

namespace MiniPascal

/-- Text for the two streams of a command. -/
structure Output where
  results : String := ""
  messages : String := ""
  deriving DecidableEq

namespace Output

/-- Output after output. -/
def append (a b : Output) : Output := ⟨a.results ++ b.results, a.messages ++ b.messages⟩

instance : Append Output := ⟨append⟩

theorem append_assoc (a b c : Output) : a ++ b ++ c = a ++ (b ++ c) := by
  change Output.mk (a.results ++ b.results ++ c.results) (a.messages ++ b.messages ++ c.messages) =
    ⟨a.results ++ (b.results ++ c.results), a.messages ++ (b.messages ++ c.messages)⟩
  rw [String.append_assoc, String.append_assoc]

@[simp] theorem empty_append (a : Output) : ({} : Output) ++ a = a := by
  change Output.mk ("" ++ a.results) ("" ++ a.messages) = ⟨a.results, a.messages⟩
  rw [String.empty_append, String.empty_append]

/-- Results only. -/
def result (text : String) : Output := ⟨text, ""⟩

/-- Messages only. -/
def message (text : String) : Output := ⟨"", text⟩

/-- Emits a notice to the messages. -/
def emit (coloured : Bool) (n : Notice) : StateM Output Unit :=
  modify fun output ↦ output ++ message (n.render coloured)

end Output

/-- What a status line reports. -/
inductive Status where
  | compiling
  | compiled
  | written

/-- The word of a status line. -/
def Status.word : Status → String
  | .compiling => "Compiling"
  | .compiled => "Compiled"
  | .written => "Written"

/-- The style of the word. -/
def Status.style : Status → Style
  | .compiling => .boldBrightCyan
  | .compiled => .boldBrightGreen
  | .written => .boldBrightGreen

/-- A status line. -/
def Status.line (s : Status) (coloured : Bool) (text : String) : String :=
  s.style.sequence coloured ++ Snippet.row (11 - s.word.length) ' ' ++ s.word
    ++ Style.plain.sequence coloured ++ " " ++ text ++ "\n"

/-- The variables of a store and the values of those that have one. -/
def Store.tables (s : Store) : String :=
  "Symbols:\n"
    ++ Snippet.concat (s.symbols.map fun (name, type) ↦ "  " ++ name ++ ": " ++ type.text ++ "\n")
    ++ "Memory:\n"
    ++ Snippet.concat (s.memory.map fun (name, v) ↦ "  " ++ name ++ " = " ++ v.text ++ "\n")

end MiniPascal
