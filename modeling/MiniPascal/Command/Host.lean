import MiniPascal.Command.Output
import MiniPascal.File.Tree

/-!
# Hosts

A command prints, reads and writes files, reads its input line by line and asks for the time. It is
written for any host that can do so: the `World` is one on a file tree, whose whole effect is a
value.
-/

namespace MiniPascal

/-- What a command asks of its host. -/
structure Host (m : Type → Type) where
  print : Output → m Unit
  readFile : String → m (Except FileFault ByteArray)
  writeFile : String → ByteArray → m (Except FileFault Unit)
  /-- The next line of the input with its line feed; no bytes at the end of the input. -/
  readLine : m ByteArray
  /-- The time since the command started. -/
  elapsed : m String

/-- What has been printed, the files and the lines still to be read. -/
structure World where
  tree : FileTree
  lines : List ByteArray := []
  output : Output := {}

/-- What came of a command. -/
structure Outcome where
  status : Nat
  output : Output
  tree : FileTree

namespace World

/-- The host of a world, on which every command takes the same time. -/
def host (elapsed : String) : Host (StateM World) where
  print output := modify fun w ↦ { w with output := w.output ++ output }
  readFile path := return (← get).tree.read path
  writeFile path content := fun w ↦
    match w.tree.write path content with
    | .ok tree => (.ok (), { w with tree })
    | .error f => (.error f, w)
  readLine := fun w ↦
    match w.lines with
    | [] => (.empty, w)
    | line :: lines => (line, { w with lines })
  elapsed := return elapsed

/-- What comes of a command that ends with a status. -/
def outcome (w : World) (command : StateM World (Option Nat)) : Option Outcome :=
  match command.run w with
  | (some status, w) => some ⟨status, w.output, w.tree⟩
  | (none, _) => none

variable (w : World) (elapsed : String)

theorem outcome_bind {α : Type} (x : StateM World α) (f : α → StateM World (Option Nat)) :
    w.outcome (x >>= f) = (x.run w).2.outcome (f (x.run w).1) := rfl

@[simp] theorem outcome_pure_none : w.outcome (pure none) = none := rfl

@[simp] theorem outcome_pure_some (status : Nat) :
    w.outcome (pure (some status)) = some ⟨status, w.output, w.tree⟩ := rfl

@[simp] theorem run_print (output : Output) :
    ((host elapsed).print output).run w = ((), { w with output := w.output ++ output }) := rfl

@[simp] theorem run_readFile (path : String) :
    ((host elapsed).readFile path).run w = (w.tree.read path, w) := rfl

@[simp] theorem run_elapsed : (host elapsed).elapsed.run w = (elapsed, w) := rfl

theorem run_readLine_cons {line : ByteArray} {lines : List ByteArray}
    (h : w.lines = line :: lines) :
    (host elapsed).readLine.run w = (line, { w with lines }) := by
  simp only [host, StateT.run, h]

theorem run_writeFile_ok {path : String} {content : ByteArray} {tree : FileTree}
    (h : w.tree.write path content = .ok tree) :
    ((host elapsed).writeFile path content).run w = (.ok (), { w with tree }) := by
  simp only [host, StateT.run, h]

theorem run_writeFile_error {path : String} {content : ByteArray} {f : FileFault}
    (h : w.tree.write path content = .error f) :
    ((host elapsed).writeFile path content).run w = (.error f, w) := by
  simp only [host, StateT.run, h]

end World

end MiniPascal
