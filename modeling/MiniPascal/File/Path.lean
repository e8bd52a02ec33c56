/-!
# Paths

A path names a file by the directories that lead to it, with slashes between them. Empty pieces and
single dots lead nowhere; two dots lead to the directory above.
-/

namespace MiniPascal.Path

/-- A path cut at its slashes. -/
def components (path : String) : List String := (path.toList.splitOn '/').map String.ofList

/-- The pieces of a path that lead somewhere. -/
def pieces (path : String) : List String :=
  (components path).filter fun piece ↦ piece ≠ "" ∧ piece ≠ "."

/-- Whether a path starts at the root. -/
def isAbsolute (path : String) : Bool := path.toList.head? == some '/'

/-- Whether a path can only name a directory. -/
def endsInSlash (path : String) : Bool := path.toList.getLast? == some '/'

/-- Whether a path asks for a directory by its form: it ends in a slash or in a single dot. -/
def asksForDirectory (path : String) : Bool :=
  endsInSlash path || (components path).getLast? == some "."

/-- The pieces of a path, with a single dot at the end if it asks for a directory. -/
def steps (path : String) : List String :=
  if asksForDirectory path then pieces path ++ ["."] else pieces path

/-- The name of the file or directory a path leads to, if its last piece is a name. -/
def fileName? (path : String) : Option String :=
  match (pieces path).getLast? with
  | some ".." => none
  | last => last

/-- The characters before the last dot of a name, unless that dot is its first character. -/
def stem? (name : String) : Option String :=
  match name.toList.reverse.dropWhile (· ≠ '.') with
  | '.' :: before => if before.isEmpty then none else some (String.ofList before.reverse)
  | _ => none

/-- A file name with its extension replaced, or added if it has none. Cut back to its dot, a name
with the stem `.` leads to the directory above and is left at that. -/
def withExtension (name extension : String) : String :=
  match stem? name with
  | some "." => ".."
  | some stem => stem ++ "." ++ extension
  | none => name ++ "." ++ extension

end MiniPascal.Path
