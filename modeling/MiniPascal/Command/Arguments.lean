import MiniPascal.Command.Job
import MiniPascal.Command.Session

/-!
# Arguments

The first argument names a command. `compile` takes the path of a source and options, in any order:
`-o` or `--output` with a file, `-n` or `--no-output`, `-s` or `--show-tables`. Short options may be
joined, and after `--` only paths follow. Nothing may be given twice.
-/

namespace MiniPascal

/-- A command. -/
inductive Command where
  | compile (job : Job)
  | session (s : Session)
  deriving DecidableEq

/-- The arguments of `compile` that were read so far. -/
structure Draft where
  path : Option String := none
  output : Option String := none
  noOutput : Bool := false
  showTables : Bool := false

namespace Draft

/-- Takes the path. It may not be empty. -/
def setPath (d : Draft) (path : String) : Option Draft :=
  if d.path.isSome || path.isEmpty then none else some { d with path := some path }

/-- Takes the file of the listing. It may not be empty. -/
def setOutput (d : Draft) (path : String) : Option Draft :=
  if d.output.isSome || path.isEmpty then none else some { d with output := some path }

/-- Takes `--no-output`. -/
def setNoOutput (d : Draft) : Option Draft :=
  if d.noOutput then none else some { d with noOutput := true }

/-- Takes `--show-tables`. -/
def setShowTables (d : Draft) : Option Draft :=
  if d.showTables then none else some { d with showTables := true }

/-- Takes joined short options; the second part tells whether the last of them still lacks its
file. -/
def short (d : Draft) : List Char → Option (Draft × Bool)
  | [] => some (d, false)
  | 'n' :: rest => do (← d.setNoOutput).short rest
  | 's' :: rest => do (← d.setShowTables).short rest
  | ['o'] => some (d, true)
  | 'o' :: '=' :: value => do return (← d.setOutput (String.ofList value), false)
  | 'o' :: value => do return (← d.setOutput (String.ofList value), false)
  | _ => none

/-- Takes paths only. -/
def paths (d : Draft) : List String → Option Draft
  | [] => some d
  | path :: rest => do (← d.setPath path).paths rest

/-- Whether an argument is an option and no file. -/
def isOption (arg : String) : Bool := arg.toList.head? == some '-' && arg != "-"

/-- Takes the file of the listing from the next argument, which may not be an option. -/
def takeOutput (d : Draft) (value : String) : Option Draft :=
  if isOption value then none else d.setOutput value

/-- What one argument amounts to. -/
inductive Argument where
  | done (d : Draft)
  | outputFollows (d : Draft)

/-- Takes one argument. -/
def argument (d : Draft) (arg : String) : Option Argument :=
  if arg = "--output" then some (.outputFollows d)
  else if arg = "--no-output" then d.setNoOutput.map .done
  else if arg = "--show-tables" then d.setShowTables.map .done
  else
    match arg.toList with
    | '-' :: '-' :: long =>
      if "output=".toList.isPrefixOf long then
        (d.setOutput (String.ofList (long.drop 7))).map .done
      else none
    | '-' :: c :: cluster =>
      (d.short (c :: cluster)).map fun (d, lacksFile) ↦
        if lacksFile then .outputFollows d else .done d
    | _ => (d.setPath arg).map .done

/-- Takes all arguments. -/
def read (d : Draft) : List String → Option Draft
  | [] => some d
  | "--" :: rest => d.paths rest
  | arg :: rest => do
    match ← d.argument arg with
    | .done d => d.read rest
    | .outputFollows d =>
      match rest with
      | [] => none
      | value :: rest => do (← d.takeOutput value).read rest

/-- The finished job; a path is needed. -/
def job? (d : Draft) : Option Job :=
  d.path.map fun path ↦
    { path, output := d.output, noOutput := d.noOutput, showTables := d.showTables }

end Draft

/-- How to call the program. -/
def Command.usage : String :=
  "usage: pasc compile <PATH> [-o <OUTPUT>] [-n] [-s]\n       pasc rlpl\n       pasc rcpl\n"

/-- The command that arguments ask for; none if they make no sense. -/
def Command.ofArguments? : List String → Option Command
  | "compile" :: args => do
    let draft ← Draft.read {} args
    return .compile (← draft.job?)
  | ["rlpl"] => some (.session .tokens)
  | ["rcpl"] => some (.session .programs)
  | _ => none

end MiniPascal
