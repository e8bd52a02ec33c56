import MiniPascal.Command.Output
import MiniPascal.File.Path
import MiniPascal.Listing.Json

/-!
# Compiling a file

A job compiles one file and writes its listing to another. What it prints and writes is decided by
what came of compiling the source and of writing the listing.
-/

namespace MiniPascal

/-- What to compile, and what to do with the result. -/
structure Job where
  path : String
  /-- Where to write the listing, if not to the default file. -/
  output : Option String := none
  /-- Write no listing. -/
  noOutput : Bool := false
  /-- Print the variables. -/
  showTables : Bool := false
  deriving DecidableEq

/-- What a job prints and writes. -/
structure Report where
  output : Output
  /-- The file to write and its content. -/
  write : Option (String × String)
  succeeded : Bool

namespace Job

/-- What is printed first. -/
def opening (job : Job) (coloured : Bool) : Output :=
  .message (Status.compiling.line coloured job.path)

/-- The file the listing is written to: by default the name of the source with the extension `json`,
in the working directory. A source without a name lends the name of the program. -/
def target (job : Job) (programName : String) : String :=
  job.output.getD (Path.withExtension ((Path.fileName? job.path).getD programName) "json")

/-- What a job prints and writes once the source is compiled, given the time it took. -/
def report (job : Job) (coloured : Bool) (elapsed : String) :
    Except Failure Compilation → Report
  | .error f => ⟨.message (f.render coloured), none, false⟩
  | .ok c =>
    let messages := Status.compiled.line coloured ("in " ++ elapsed)
    let results := if job.showTables then c.compiled.store.tables else ""
    let write :=
      if job.noOutput then none
      else some (job.target c.compiled.name, c.compiled.listing.json)
    ⟨⟨results, messages⟩, write, true⟩

/-- What is printed once the listing was written to a file, or was not. -/
def closing (coloured : Bool) (path : String) : Except FileFault Unit → Output
  | .ok () => .message (Status.written.line coloured path)
  | .error f => .message ((Failure.file f).render coloured)

end Job

end MiniPascal
