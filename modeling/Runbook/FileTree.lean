import Runbook.Json.Fields
import Runbook.Text.Cut

/-!
# File trees

A file tree is a file, or a directory of named file trees. Files are reached by paths, which are
the names on the way. Reading says why there is nothing to read, in the words of the operating
system.
-/

set_option autoImplicit false

namespace Runbook

inductive FileTree where
  | file (content : ByteArray)
  | directory (entries : List (String × FileTree))
  deriving Inhabited

/-- The names on the way to a file. -/
abbrev FilePath := List String

inductive FileError where
  | notFound
  /-- A file where a directory is needed. -/
  | notADirectory
  /-- A directory where a file is needed. -/
  | isADirectory
  | alreadyExists
  | notText
  deriving DecidableEq, Repr, Inhabited

namespace FileError

def message : FileError → String
  | .notFound => "No such file or directory (os error 2)"
  | .notADirectory => "Not a directory (os error 20)"
  | .isADirectory => "Is a directory (os error 21)"
  | .alreadyExists => "File exists (os error 17)"
  | .notText => "stream did not contain valid UTF-8"

end FileError

namespace FileTree

/-- A directory with nothing in it. -/
def empty : FileTree := .directory []

/-! ## Paths -/

/-- The path that a text names, seen from a directory: `..` leads up, and `.` and empty names lead
nowhere. A text that starts with a slash is seen from the root. -/
def resolve (base : FilePath) (s : String) : FilePath :=
  let start := if Text.startsWith "/" s then [] else base
  (Text.split '/' s).foldl
    (fun path name =>
      if name = "" || name = "." then path
      else if name = ".." then path.dropLast
      else path ++ [name])
    start

/-- The part of a file's name behind its last dot, if something stands before that dot. -/
def extension? (name : String) : Option String :=
  match Text.cutChars? '.' name.toList.reverse with
  | some (ext, _ :: _) => some (String.ofList ext.reverse)
  | _ => none

/-- The order of paths: name by name. -/
def pathBefore : FilePath → FilePath → Bool
  | [], _ => true
  | _ :: _, [] => false
  | a :: as, b :: bs => if a = b then pathBefore as bs else Fields.nameBefore a b

/-! ## Looking -/

/-- What a path leads to. -/
def at? : FilePath → FileTree → Except FileError FileTree
  | [], t => .ok t
  | _ :: _, .file _ => .error .notADirectory
  | name :: path, .directory entries =>
      match Fields.get? name entries with
      | none => .error .notFound
      | some t => at? path t

def exists? (path : FilePath) (t : FileTree) : Bool := (t.at? path).toOption.isSome

def isFile (path : FilePath) (t : FileTree) : Bool :=
  match t.at? path with
  | .ok (.file _) => true
  | _ => false

def isDirectory (path : FilePath) (t : FileTree) : Bool :=
  match t.at? path with
  | .ok (.directory _) => true
  | _ => false

/-- The bytes of a file. -/
def read (path : FilePath) (t : FileTree) : Except FileError ByteArray :=
  match t.at? path with
  | .ok (.file content) => .ok content
  | .ok (.directory _) => .error .isADirectory
  | .error e => .error e

/-- The text of a file. -/
def readText (path : FilePath) (t : FileTree) : Except FileError String :=
  match t.read path with
  | .error e => .error e
  | .ok bytes =>
      match String.fromUTF8? bytes with
      | some s => .ok s
      | none => .error .notText

mutual

/-- All files with their paths, in order of the entries. -/
def files : FileTree → List (FilePath × ByteArray)
  | .file content => [([], content)]
  | .directory entries => filesIn entries

def filesIn : List (String × FileTree) → List (FilePath × ByteArray)
  | [] => []
  | (name, t) :: rest =>
      (files t).map (fun f => (name :: f.1, f.2)) ++ filesIn rest

end

/-! ## Writing -/

/-- Puts something at a path, with the directories on the way if they are missing. -/
def place (what : FileTree) : FilePath → FileTree → Except FileError FileTree
  | [], _ => .ok what
  | _ :: _, .file _ => .error .notADirectory
  | name :: path, .directory entries =>
      match place what path ((Fields.get? name entries).getD empty) with
      | .error e => .error e
      | .ok t => .ok (.directory (Fields.put name t entries))

/-- Writes a file. -/
def write (path : FilePath) (content : ByteArray) (t : FileTree) : Except FileError FileTree :=
  if t.isDirectory path then .error .isADirectory else place (.file content) path t

/-- Makes a directory and those on the way to it; one that is there stays as it is. -/
def makeDirectory (path : FilePath) (t : FileTree) : Except FileError FileTree :=
  match t.at? path with
  | .ok (.directory _) => .ok t
  | .ok (.file _) => .error .alreadyExists
  | .error .notFound => place empty path t
  | .error e => .error e

end FileTree
end Runbook
