import MiniPascal.Execution.Program
import MiniPascal.Source.Utf8
import MiniPascal.Warning.Notice

/-!
# Compilations

A program is compiled from a text, from the bytes of a file taken as a whole, or from a stream of
bytes. The path of the program only serves to name it in messages. Fuel bounds the execution of its
loops; a compilation without result ran out of it.

Once a program has compiled, a notice is emitted for each of its warnings, in their order. Where a
notice goes is left to an emitter, in whatever monad it works.
-/

namespace MiniPascal

/-- Why there is no compiled program. -/
inductive Failure where
  | program (path source : String) (fault : Fault)
  | file (fault : FileFault)

/-- A compiled program with its text. -/
structure Compilation where
  path : String
  source : String
  compiled : Compiled

/-- The notices of a compilation. -/
def Compilation.notices (c : Compilation) : List Notice :=
  c.compiled.warnings.map fun warning ↦ { path := c.path, source := c.source, warning }

/-- Fuel that outlasts every loop one would wait for. -/
def ampleFuel : Nat := 1000000000000000

section
variable {m : Type → Type} [Monad m] (emit : Notice → m Unit)

/-- The result of an execution, with the text it is about. The warnings are emitted before. -/
def conclude (path source : String) :
    Except Halt Compiled → m (Option (Except Failure Compilation))
  | .ok compiled => do
    let c : Compilation := { path, source, compiled }
    c.notices.forM emit
    return some (.ok c)
  | .error (.fault f) => return some (.error (.program path source f))
  | .error .outOfFuel => return none

/-- Compiles a text. -/
def compileSource (fuel : Nat) (path source : String) :
    m (Option (Except Failure Compilation)) :=
  conclude emit path source (compileText fuel source)

/-- Compiles what came of reading a file as a whole, which must be UTF-8. -/
def compileFile (fuel : Nat) (path : String) :
    Except FileFault ByteArray → m (Option (Except Failure Compilation))
  | .error f => return some (.error (.file f))
  | .ok bytes =>
    match String.fromUTF8? bytes with
    | some source => compileSource emit fuel path source
    | none => return some (.error (.file .invalidData))

/-- Compiles what came of opening a file as a stream of bytes, decoded one character at a time. The
characters are placed as they come, and the text is put together from them. The characters up to a
fault of the stream are compiled, but the fault comes before any fault of the program, and before
its warnings. -/
def compileStream (fuel : Nat) (path : String) :
    Except FileFault ByteArray → m (Option (Except Failure Compilation))
  | .error f => return some (.error (.file f))
  | .ok bytes =>
    let decoded := Utf8.decode bytes.data.toList
    let result := compileScanned fuel (Scanner.ofPlaced (Placed.layOut 0 decoded.chars))
    match decoded.fault, result with
    | some _, .error .outOfFuel => return none
    | some f, _ => return some (.error (.file f))
    | none, result => conclude emit path (String.ofList decoded.chars) result

end

/-- The failure in one line. -/
def Failure.text : Failure → String
  | .program _ _ _ => "failed to compile source code"
  | .file f => "IO operation failed: " ++ f.text

end MiniPascal
