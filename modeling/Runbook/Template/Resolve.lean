import Runbook.Json.Printer
import Runbook.Template.Basic
import Runbook.Template.Pieces
import Runbook.Template.Scope

/-!
# Filling in placeholders

A text that is exactly one placeholder resolves to the value at its path, whatever its type. In
any other text each placeholder is replaced by the display text of its value. Text that was put in
is never scanned again. A path that leads nowhere is either left empty or an error, by policy.
-/

set_option autoImplicit false

namespace Runbook

/-- What becomes of a placeholder whose path leads nowhere. -/
inductive MissingPath where
  /-- It is filled with nothing. -/
  | empty
  /-- It is an error. -/
  | fail
  deriving DecidableEq, Repr, Inhabited

namespace Template

inductive ResolveError where
  | missingPath (path : String)
  deriving DecidableEq, Repr

def ResolveError.message : ResolveError → String
  | .missingPath path => s!"template path '{path}' did not resolve"

/-- The value at a path, by policy: a missing one is nothing or an error. -/
def lookup (policy : MissingPath) (scope : Scope) (path : String) :
    Except ResolveError (Option Json) :=
  match scope.lookup path, policy with
  | some v, _ => .ok (some v)
  | none, .empty => .ok none
  | none, .fail => .error (.missingPath path)

/-- The text that a piece contributes. -/
def renderPiece (policy : MissingPath) (scope : Scope) : Piece → Except ResolveError String
  | .text s => .ok s
  | .hole path =>
      match lookup policy scope path with
      | .ok (some v) => .ok v.display
      | .ok none => .ok ""
      | .error e => .error e

/-- The texts of all pieces in one. -/
def renderPieces (policy : MissingPath) (scope : Scope) : List Piece → Except ResolveError String
  | [] => .ok ""
  | p :: ps =>
      match renderPiece policy scope p with
      | .error e => .error e
      | .ok s =>
          match renderPieces policy scope ps with
          | .error e => .error e
          | .ok rest => .ok (s ++ rest)

/-- The display text of a template. -/
def render (policy : MissingPath) (scope : Scope) (template : String) :
    Except ResolveError String :=
  renderPieces policy scope (pieces template)

/-- The path of a template that is one placeholder from its first to its last character. -/
def lonePath? (template : String) : Option String :=
  match pieces template with
  | [.hole path] =>
      if Text.startsWith "\x7b\x7b" template && Text.endsWith "\x7d\x7d" template then some path
      else none
  | _ => none

/-- The value of a text: a lone placeholder keeps the type of what it refers to. -/
def resolveText (policy : MissingPath) (scope : Scope) (template : String) :
    Except ResolveError Json :=
  match lonePath? template with
  | some path =>
      match lookup policy scope path with
      | .ok v => .ok (v.getD (.str ""))
      | .error e => .error e
  | none =>
      match render policy scope template with
      | .ok s => .ok (.str s)
      | .error e => .error e

mutual

/-- The value of a template: of the same shape, with every text replaced by its own value. -/
def resolve (policy : MissingPath) (scope : Scope) : Template → Except ResolveError Json
  | .text s => resolveText policy scope s
  | .list items =>
      match resolveItems policy scope items with
      | .ok vs => .ok (.arr vs)
      | .error e => .error e
  | .map fields =>
      match resolveFields policy scope fields with
      | .ok fs => .ok (.obj fs)
      | .error e => .error e
  | .literal v => .ok v

def resolveItems (policy : MissingPath) (scope : Scope) :
    List Template → Except ResolveError (List Json)
  | [] => .ok []
  | t :: ts =>
      match resolve policy scope t with
      | .error e => .error e
      | .ok v =>
          match resolveItems policy scope ts with
          | .error e => .error e
          | .ok vs => .ok (v :: vs)

def resolveFields (policy : MissingPath) (scope : Scope) :
    List (String × Template) → Except ResolveError (List (String × Json))
  | [] => .ok []
  | (k, t) :: rest =>
      match resolve policy scope t with
      | .error e => .error e
      | .ok v =>
          match resolveFields policy scope rest with
          | .error e => .error e
          | .ok fs => .ok ((k, v) :: fs)

end

end Template
end Runbook
