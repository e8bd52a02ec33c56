import MiniPascal.Command.Output

/-!
# Interactive sessions

A session answers line after line: with the tokens of the line, or by compiling it as a whole
program. Empty lines are passed over, and `.exit` ends the session, as does the end of the input. A
line that is not UTF-8 ends it with a fault. Nothing is kept from one line to the next.
-/

namespace MiniPascal

/-- What a session does with a line. -/
inductive Session where
  | tokens
  | programs
  deriving DecidableEq, Repr

/-- What the session makes of one line. -/
inductive Turn where
  | leave
  | invalid
  | carryOn (output : Output)

namespace Session

/-- What is printed before a line is read. -/
def prompt : Session → String
  | .tokens => "lex> "
  | .programs => "pas> "

/-- The name of a program typed in. -/
def programPath : String := "<rcpl>"

/-- One line for a token, or a few for a lexical fault. -/
def tokenText : Except LexicalFault Lexeme → String
  | .ok ⟨.endOfInput, _⟩ => Token.endOfInput.label ++ "\n"
  | .ok l => l.token.label ++ " [" ++ l.span.text ++ "]\n"
  | .error f =>
    "[at " ++ f.span.text ++ "] Lexical error: " ++ f.cause.message ++ "\n"
      ++ (if f.cause.details.isEmpty then "" else "\n".intercalate f.cause.details ++ "\n")

/-- What is printed about a compiled program. -/
def showProgram (coloured : Bool) : Except Failure Compilation → Output
  | .ok c =>
    .result (Snippet.concat (c.compiled.listing.lines.map (· ++ "\n")) ++ c.compiled.store.tables)
  | .error f => .message (f.render coloured)

/-- The answer to a line. -/
def reply (fuel : Nat) (coloured : Bool) (line : String) : Session → Option Output
  | .tokens => some (.result (Snippet.concat ((Scanner.ofString line).all.1.map tokenText)))
  | .programs =>
    let (result, emitted) := (compileSource (Output.emit coloured) fuel programPath line).run {}
    result.map fun result ↦ emitted ++ showProgram coloured result

/-- A line without the line feeds and carriage returns at its end. -/
def trimLine (line : String) : String :=
  String.ofList (line.toList.reverse.dropWhile fun c ↦ c = '\n' || c = '\r').reverse

/-- What the session makes of the bytes of one line. -/
def turn (fuel : Nat) (coloured : Bool) (s : Session) (bytes : ByteArray) : Option Turn :=
  match String.fromUTF8? bytes with
  | none => some .invalid
  | some text =>
    let line := trimLine text
    if line = "" then some (.carryOn {})
    else if line = ".exit" then some .leave
    else (s.reply fuel coloured line).map .carryOn

/-- Splits an input after every line feed. The first argument is the line that is being read, its
last byte first; a line with no byte in it is none. -/
def splitLines : List UInt8 → List UInt8 → List ByteArray
  | line, [] => if line.isEmpty then [] else [⟨line.reverse.toArray⟩]
  | line, b :: bs =>
    if b = 10 then ⟨(b :: line).reverse.toArray⟩ :: splitLines [] bs else splitLines (b :: line) bs

end Session

end MiniPascal
