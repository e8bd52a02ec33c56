import MiniPascal.Dictionary
import MiniPascal.File.Fault
import MiniPascal.File.Path

/-!
# File trees

A file tree is the state of a file system as a value: what stands at its places, the contents of its
files and the working directory. A file is known by a number, and it has as many names as there are
places with that number. A link leads to where its target leads. Reading follows a path piece by
piece and fails like a file system does; writing gives a new tree that differs in one file.
-/

namespace MiniPascal

/-- What stands at a place. -/
inductive FileEntry where
  | directory
  | file (number : Nat)
  | link (target : String)
  deriving DecidableEq

/-- The number of a file. -/
def FileEntry.number? : FileEntry → Option Nat
  | .file number => some number
  | _ => none

/-- A place in a tree: the names that lead to it from the root. -/
abbrev Place := List String

/-- Directories, files and links by their places, and the contents of files by their numbers. The
root is always a directory. -/
structure FileTree where
  entries : Dictionary Place FileEntry := {}
  contents : Dictionary Nat ByteArray := {}
  workingDirectory : Place := []

namespace FileTree

/-- What stands at a place. -/
def get? (t : FileTree) (p : Place) : Option FileEntry :=
  if p.isEmpty then some .directory else t.entries.get? p

/-- The content of a file. A file that was never written is empty. -/
def content (t : FileTree) (number : Nat) : ByteArray := (t.contents.get? number).getD .empty

/-- Puts something at a place, instead of what stood there. -/
def put (t : FileTree) (p : Place) (e : FileEntry) : FileTree :=
  { t with entries := t.entries.insert p e }

/-- Gives a file a content. -/
def fill (t : FileTree) (number : Nat) (content : ByteArray) : FileTree :=
  { t with contents := t.contents.insert number content }

/-- A number that no file has. -/
def fresh (t : FileTree) : Nat :=
  (t.entries.pairs.filterMap fun x ↦ x.2.number?).foldr (fun n m ↦ max (n + 1) m) 0

/-- Where one piece of a path leads from a directory. -/
def enter (p : Place) (piece : String) : Place :=
  if piece = ".." then p.dropLast else if piece = "." then p else p ++ [piece]

/-- Follows pieces of a path. Every piece is taken from a directory. What is left to follow at a
link is passed on. -/
def followWith (t : FileTree) (atLink : Place → List String → Except FileFault Place) (p : Place) :
    List String → Except FileFault Place
  | [] => .ok p
  | piece :: rest =>
    match t.get? p with
    | none => .error .notFound
    | some .directory =>
      match t.get? (enter p piece) with
      | some (.link target) =>
        atLink (if Path.isAbsolute target then [] else p) (Path.steps target ++ rest)
      | _ => t.followWith atLink (enter p piece) rest
    | some _ => .error .notDirectory

/-- Follows pieces of a path through a bounded number of links. -/
def follow (t : FileTree) : (links : Nat) → Place → List String → Except FileFault Place
  | 0 => t.followWith fun _ _ ↦ .error .tooManyLinks
  | links + 1 => t.followWith (t.follow links)

/-- The number of links on one path. -/
def maxLinks : Nat := 40

/-- The place a path leads to, where nothing need stand. What holds it is a directory. -/
def resolve (t : FileTree) (path : String) : Except FileFault Place :=
  if path.toList.contains (Char.ofNat 0) then .error .invalidInput
  else if path.isEmpty then .error .notFound
  else
    t.follow maxLinks (if Path.isAbsolute path then [] else t.workingDirectory) (Path.pieces path)

/-- The content of a file. -/
def read (t : FileTree) (path : String) : Except FileFault ByteArray := do
  match t.get? (← t.resolve path) with
  | none => .error .notFound
  | some .directory => .error .isDirectory
  | some (.link _) => .error .tooManyLinks
  | some (.file number) =>
    if Path.asksForDirectory path then .error .notDirectory else .ok (t.content number)

/-- Writes a file, which may be a new one, in an existing directory. -/
def write (t : FileTree) (path : String) (content : ByteArray) : Except FileFault FileTree := do
  let place ← t.resolve path
  if Path.endsInSlash path then .error .isDirectory
  else
    match t.get? place with
    | some .directory => .error .isDirectory
    | some (.link _) => .error .tooManyLinks
    | some (.file number) =>
      if Path.asksForDirectory path then .error .notDirectory else .ok (t.fill number content)
    | none =>
      if Path.asksForDirectory path then .error .notFound
      else .ok ((t.put place (.file t.fresh)).fill t.fresh content)

end FileTree

end MiniPascal
