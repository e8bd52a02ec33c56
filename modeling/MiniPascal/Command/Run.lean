import MiniPascal.Command.Arguments
import MiniPascal.Command.Host

/-!
# Running commands

Commands run on any host, and end with a status; one without a status ran out of fuel. On a world
their whole effect is a value: what is printed, the exit status and the file tree that is left
behind.
-/

namespace MiniPascal

/-- The status of a command that failed. -/
def failureStatus : Nat := 1

/-- The status for arguments that ask for no command. -/
def usageStatus : Nat := 2

section
variable {m : Type → Type} [Monad m] (host : Host m) (fuel : Nat) (coloured : Bool)

/-- Runs a job. The warnings are printed as they are emitted. -/
def Job.runOn (job : Job) : m (Option Nat) := do
  host.print (job.opening coloured)
  let content ← host.readFile job.path
  let emit (n : Notice) := host.print (.message (n.render coloured))
  match ← compileStream emit fuel job.path content with
  | none => return none
  | some result =>
    let report := job.report coloured (← host.elapsed) result
    host.print report.output
    match report.write with
    | none => return some (if report.succeeded then 0 else failureStatus)
    | some (path, text) =>
      let written ← host.writeFile path text.toUTF8
      host.print (closing coloured path written)
      return some (if written.isOk then 0 else failureStatus)

/-- Runs a session for some rounds, if it does not end before. -/
def Session.runOn (s : Session) : (rounds : Nat) → m (Option Nat)
  | 0 => return none
  | rounds + 1 => do
    host.print (.result s.prompt)
    let bytes ← host.readLine
    if bytes.isEmpty then return some 0
    match s.turn fuel coloured bytes with
    | none => return none
    | some .leave => return some 0
    | some .invalid =>
      host.print (.message ((Failure.file .invalidData).render coloured))
      return some failureStatus
    | some (.carryOn output) =>
      host.print output
      s.runOn rounds

/-- Runs a command. -/
def Command.runOn (rounds : Nat) : Command → m (Option Nat)
  | .compile job => job.runOn host fuel coloured
  | .session s => s.runOn host fuel coloured rounds

/-- Runs the command that arguments ask for. -/
def runArgumentsOn (rounds : Nat) (args : List String) : m (Option Nat) :=
  match Command.ofArguments? args with
  | some c => c.runOn host fuel coloured rounds
  | none => do
    host.print (.message Command.usage)
    return some usageStatus

end

/-- A world with an input, and one round more than the input has lines. -/
def World.withInput (tree : FileTree) (input : ByteArray) : World × Nat :=
  let lines := Session.splitLines [] input.toList
  ({ tree, lines }, lines.length + 1)

/-- Runs a job on a file tree, as if it had taken a given time. -/
def Job.run (job : Job) (fuel : Nat) (coloured : Bool) (elapsed : String) (tree : FileTree) :
    Option Outcome :=
  World.outcome { tree } (job.runOn (World.host elapsed) fuel coloured)

/-- Runs a session on an input. -/
def Session.outcome (s : Session) (fuel : Nat) (coloured : Bool) (input : ByteArray)
    (tree : FileTree) : Option Outcome :=
  let (world, rounds) := World.withInput tree input
  world.outcome (s.runOn (World.host "") fuel coloured rounds)

/-- Runs a command on a file tree with a given input. -/
def Command.run (c : Command) (fuel : Nat) (coloured : Bool) (elapsed : String) (tree : FileTree)
    (input : ByteArray) : Option Outcome :=
  let (world, rounds) := World.withInput tree input
  world.outcome (c.runOn (World.host elapsed) fuel coloured rounds)

/-- Runs the command that arguments ask for. -/
def runArguments (args : List String) (fuel : Nat) (coloured : Bool) (elapsed : String)
    (tree : FileTree) (input : ByteArray) : Option Outcome :=
  let (world, rounds) := World.withInput tree input
  world.outcome (runArgumentsOn (World.host elapsed) fuel coloured rounds args)

end MiniPascal
