import Runbook.FileTree
import Runbook.Workflow.Source

/-!
# The workflows at hand

The workflows come from a primary file and from all files in a directory of the data directory.
The primary file has to be in order. A file of the directory that is not in order is passed over
and changes nothing for the others; the files are taken in the order of their paths, and of
several workflows with one name the first is kept.
-/

set_option autoImplicit false

namespace Runbook.Workflow.Library

/-- The name of a primary file. -/
def fileName : String := "workflows.yaml"

/-- The name of the directory that is searched. -/
def directoryName : String := "workflows"

/-- A file with one of these extensions holds workflows. -/
def extensions : List String := ["yaml", "yml"]

/-- The places where a primary file is looked for, the first one first. -/
def places (current data : FilePath) : List FilePath :=
  [current ++ [fileName], data ++ [fileName]]

/-- The primary file: the one asked for, else the first that is there. -/
def primary? (explicit : Option FilePath) (current data : FilePath) (tree : FileTree) :
    Option FilePath :=
  explicit.or ((places current data).find? fun path => tree.isFile path)

/-- The workflows that the bytes of a file hold. -/
def ofBytes (content : ByteArray) : Except Error (List Workflow) :=
  match String.fromUTF8? content with
  | some s => ofText s
  | none => .error (.unreadable FileError.notText.message)

/-- The workflows of a file. -/
def ofFile (path : FilePath) (tree : FileTree) : Except Error (List Workflow) :=
  match tree.read path with
  | .ok content => ofBytes content
  | .error e => .error (.unreadable e.message)

/-- The file holds workflows, judged by its name. -/
def holdsWorkflows (path : FilePath) : Bool :=
  ((path.getLast?).bind FileTree.extension?).any extensions.contains

/-- The workflows of a file that is in order, with its path; none of another one. -/
def ofCandidate (f : FilePath × ByteArray) : List (FilePath × Workflow) :=
  match ofBytes f.2 with
  | .ok ws => ws.map fun w => (f.1, w)
  | .error _ => []

/-- The workflows of all files that hold workflows, with their paths, in the order of the
entries. -/
def collect (tree : FileTree) : List (FilePath × Workflow) :=
  (tree.files.filter fun f => holdsWorkflows f.1).flatMap ofCandidate

/-- The workflows in a directory, with the paths of their files seen from there, in the order of
these paths. A directory that is missing has none. -/
def discover (dir : FilePath) (tree : FileTree) : Except Error (List (FilePath × Workflow)) :=
  match tree.at? dir with
  | .error _ => .ok []
  | .ok (.file _) => .error (.unreadable FileError.notADirectory.message)
  | .ok found => .ok ((collect found).mergeSort fun a b => FileTree.pathBefore a.1 b.1)

/-- Those of the workflows whose name is not taken, by the list or by an earlier one. -/
def fresh : (taken : List String) → List Workflow → List Workflow
  | _, [] => []
  | taken, w :: ws =>
      if taken.contains w.name then fresh taken ws else w :: fresh (w.name :: taken) ws

/-- The workflows of the primary file, if there is one. -/
def ofPrimary (path : Option FilePath) (tree : FileTree) : Except Error (List Workflow) :=
  match path with
  | some path => ofFile path tree
  | none => .ok []

/-- All workflows at hand. -/
def load (explicit : Option FilePath) (current data : FilePath) (tree : FileTree) :
    Except Error (List Workflow) :=
  match ofPrimary (primary? explicit current data tree) tree with
  | .error e => .error e
  | .ok ws =>
      match discover (data ++ [directoryName]) tree with
      | .error e => .error e
      | .ok found => .ok (ws ++ fresh (ws.map (·.name)) (found.map (·.2)))

end Runbook.Workflow.Library
