import Runbook.Console.Perform
import Std.Time.DateTime.Timestamp

/-!
# The program

Finds the host of a command, has the command carried out, and writes back what it has changed.
The program has no network, so that a request to a model finds no answer.
-/

set_option autoImplicit false

namespace Runbook.Main

open Console

/-- The environment in the form in which the system lists it. -/
def environmentOf (block : String) : Environment :=
  { entries := (Text.split '\x00' block).filterMap (Text.cut? '=') }

/-- The variables of this process. -/
def readEnvironment : IO Environment := do
  let bytes ← IO.FS.readBinFile "/proc/self/environ"
  return environmentOf ((String.fromUTF8? bytes).getD "")

/-- The text of a path from the root. -/
def pathText (path : FilePath) : String := "/" ++ Text.join "/" path

/-- Adds a file of the system to a tree, if it is there. -/
def addFile (tree : FileTree) (path : FilePath) : IO FileTree := do
  try
    let bytes ← IO.FS.readBinFile (pathText path)
    return ((tree.write path bytes).toOption).getD tree
  catch _ =>
    return tree

/-- Adds what is at a path of the system to a tree: a file, or a directory with all in it. -/
partial def addAll (tree : FileTree) (path : FilePath) : IO FileTree := do
  let entries ← try
    let place ← IO.FS.realPath (pathText path)
    pure (some (← place.readDir))
  catch _ => pure none
  match entries with
  | none => addFile tree path
  | some entries =>
      let start := ((tree.makeDirectory path).toOption).getD tree
      entries.foldlM (fun tree entry => addAll tree (path ++ [entry.fileName])) start

/-- The files that a command may look at. -/
def readTree (current data : FilePath) (file : Option FilePath) : IO FileTree := do
  let tree ← addAll .empty data
  let tree ← (Workflow.Library.places current data).foldlM addAll tree
  file.toList.foldlM addAll (((tree.makeDirectory current).toOption).getD tree)

/-- Writes the files that have changed. Only their owner may read them. -/
def writeTree (before after : FileTree) : IO Unit := do
  for (path, content) in after.files do
    let same := match before.read path with
      | .ok old => old.data == content.data
      | .error _ => false
    unless same do
      IO.FS.createDirAll (pathText path.dropLast)
      IO.FS.writeBinFile (pathText path) content
      IO.setAccessRights (pathText path) { user := { read := true, write := true } }

/-- The memory in the data directory; none if it cannot be read. -/
def storeOf? (data : FilePath) (tree : FileTree) : Option Memory.RowTable :=
  match tree.readText (data ++ [Memory.RowTable.fileName]) with
  | .ok s => Memory.RowTable.ofText? s
  | .error _ => some {}

/-- The program has nothing to work with. -/
def noMemory : Complaint := { message := "failed to open the memory database" }

/-- The tree with the memory in it. -/
def withStore (data : FilePath) (store : Memory.RowTable) (tree : FileTree) : FileTree :=
  if tree.isDirectory data then
    ((tree.write (data ++ [Memory.RowTable.fileName]) store.toText.toUTF8).toOption).getD tree
  else tree

/-- Carries out a command line that has been understood. -/
def carryOut (environment : Environment) (current : FilePath) (args : List String)
    (file : Option FilePath) : IO Outcome := do
  let data := FileTree.resolve current (Config.dataDirectory environment)
  let tree ← readTree current data file
  match storeOf? data tree with
  | none => return .ofResult (.error noMemory)
  | some store =>
      let now ← Std.Time.Timestamp.now
      let bytes ← (List.replicate 3 ()).mapM fun _ => IO.getRandomBytes 32
      let host : Host :=
        { tree, current, environment, store
          clock := ⟨now.toNanosecondsSinceUnixEpoch.val⟩
          random := fun size draw => ((bytes[draw]?).getD .empty).extract 0 size }
      let (outcome, host) := host.perform args
      writeTree tree (withStore data host.store host.tree)
      return outcome

end Runbook.Main

open Runbook Console Main in
def main (args : List String) : IO UInt32 := do
  let environment ← readEnvironment
  let current := FileTree.resolve [] (← IO.currentDir).toString
  let outcome ← match Invocation.ofWords environment args with
    | .error refusal => pure (Outcome.ofRefusal refusal)
    | .ok i => carryOut environment current args (i.file.map (FileTree.resolve current))
  (← IO.getStdout).putStr outcome.output
  (← IO.getStderr).putStr outcome.complaint
  return outcome.code.toUInt32
