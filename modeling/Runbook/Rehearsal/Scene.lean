import Runbook.FileTree
import Runbook.Http
import Runbook.Rehearsal.Script
import Runbook.Secret.Environment
import Runbook.Text.Bytes

/-!
# The scene of a rehearsal

A script describes the files and the environment that a program finds, and what a server answers.
Bytes that would be random are numbered instead.
-/

set_option autoImplicit false

namespace Runbook.Rehearsal

/-- A file tree from paths to what is there: a text, bytes, or a directory. -/
def treeOf (files : Fields Json) : FileTree :=
  files.foldl
    (fun tree (name, what) =>
      let path := FileTree.resolve [] name
      let made := match what with
        | .str s => tree.write path s.toUTF8
        | what => match str? what "hex" with
          | some h => tree.write path (Hex.decode h)
          | none => tree.makeDirectory path
      made.toOption.getD tree) .empty

/-- An environment from names to texts. -/
def environmentOf (script : Json) : Environment :=
  { entries := ((script.obj?).getD []).filterMap fun (k, v) => v.str?.map fun s => (k, s) }

/-- What a server answers, if it does. -/
def httpAnswerOf (script : Json) : Option Http.Answer :=
  match script with
  | .null => none
  | script =>
      some
        { status := nat script "status", body := str script "body"
          headers := (items script "headers").filterMap fun h => match h with
            | .arr [.str k, .str v] => some (k, v)
            | _ => none }

/-- Bytes that differ for different numbers. -/
def numberedBytes (size n : Nat) : ByteArray :=
  ByteArray.mk ((Array.range size).map fun i => (n / Nat.pow 256 i + 17 * i).toUInt8)

/-- One byte over and over. -/
def repeatedByte (size b : Nat) : ByteArray := ByteArray.mk (Array.replicate size b.toUInt8)

end Runbook.Rehearsal
