import MiniPascal.Command.Elapsed
import MiniPascal.Command.Run

/-!
# The command line

Runs a command on the files, streams and the clock of the computer, which make up one more
`Host`.
-/

namespace MiniPascal.Console

/-- The kind of a failed operation. -/
def faultOf : IO.Error → FileFault
  | .noFileOrDirectory _ _ _ => .notFound
  | .permissionDenied _ _ _ => .permissionDenied
  | .alreadyExists _ _ _ => .alreadyExists
  | .invalidArgument _ _ _ => .invalidInput
  | .inappropriateType _ code _ => if code = 21 then .isDirectory else .notDirectory
  | .timeExpired _ _ => .timedOut
  | .interrupted _ _ _ => .interrupted
  | .unexpectedEof => .unexpectedEnd
  | .resourceVanished _ _ => .brokenPipe
  | _ => .other

/-- Carries out an operation whose failure is a result. -/
def attempt {α : Type} (action : IO α) : IO (Except FileFault α) := do
  match ← action.toBaseIO with
  | .ok a => return .ok a
  | .error e => return .error (faultOf e)

/-- Prints to both streams, messages first. -/
def print (output : Output) : IO Unit := do
  IO.eprint output.messages
  IO.print output.results
  (← IO.getStdout).flush

/-- Whether messages are coloured: if that is asked for, or on a terminal that shows colours. -/
def isColoured : IO Bool := do
  if ((← IO.getEnv "FORCE_COLOR").getD "") ≠ "" then return true
  let term := (← IO.getEnv "TERM").getD "dumb"
  let refused := (← IO.getEnv "NO_COLOR").isSome
  return (← (← IO.getStderr).isTty) && term != "dumb" && !refused

/-- Reads the bytes of a line, its line feed included. There are none at the end of the input. -/
partial def readLine (input : IO.FS.Stream) (line : ByteArray) : IO ByteArray := do
  let chunk ← input.read 1
  let line := line ++ chunk
  if chunk.isEmpty || chunk.data.back? == some 10 then return line else readLine input line

/-- The computer, with the time at which the command started. -/
def host (start : Nat) : Host IO where
  print := print
  readFile path := attempt (IO.FS.readBinFile path)
  writeFile path content := attempt (IO.FS.writeBinFile path content)
  readLine := do readLine (← IO.getStdin) .empty
  elapsed := return Elapsed.text ((← IO.monoMsNow) - start)

end MiniPascal.Console

open MiniPascal in
/-- Runs the command that the arguments ask for. -/
def main (args : List String) : IO UInt32 := do
  let host := Console.host (← IO.monoMsNow)
  let coloured ← Console.isColoured
  let status ← runArgumentsOn host ampleFuel coloured ampleFuel args
  return (status.getD failureStatus).toUInt32
