import Runbook.Engine.Basic
import Runbook.FileTree
import Runbook.Secret.Basic
import Runbook.Text.Cut

/-!
# Complaints

A command that cannot be carried out says what went wrong, and what caused it. A single cause is
indented; several causes are numbered from zero, the nearest one first.
-/

set_option autoImplicit false

namespace Runbook.Console

structure Complaint where
  message : String
  /-- The nearest one first. -/
  causes : List String := []
  deriving DecidableEq, Repr, Inhabited

namespace Complaint

/-- A cause behind a mark, with its further lines indented. -/
def causeText (mark indent cause : String) : String :=
  mark ++ Text.join ("\n" ++ indent) (Text.split '\n' cause)

/-- The causes as they are printed. -/
def causeTexts : List String → List String
  | [] => []
  | [c] => [causeText "    " "    " c]
  | cs => cs.zipIdx.map fun (c, i) => causeText s!"    {i}: " "       " c

def text (c : Complaint) : String :=
  let causes := match causeTexts c.causes with
    | [] => []
    | texts => ["", "Caused by:"] ++ texts
  Text.join "\n" (("Error: " ++ c.message) :: causes) ++ "\n"

/-! ## What goes wrong -/

def ofDirectory (place : String) (e : FileError) : Complaint :=
  { message := s!"cannot create data directory {place}", causes := [e.message] }

/-- The workflows cannot be loaded. What cannot be read has a cause of its own. -/
def ofLoading (e : Workflow.Error) : Complaint :=
  { message := "failed to load workflows"
    causes := e.message :: match e with
      | .unreadable detail => [detail]
      | _ => [] }

def ofEngine (e : EngineError) : Complaint :=
  { message := e.message
    causes := match e with
      | .store cause => [cause.message]
      | _ => [] }

def ofStore (e : StoreError) : Complaint := ofEngine (.store e)

def ofSecret (e : SecretError) : Complaint := { message := e.message }

/-- Something has to be asked for, and nobody can be asked. -/
def noTerminal : Complaint :=
  { message := "IO error: not a terminal", causes := ["not a terminal"] }

def pairExpected (param : String) : Complaint :=
  { message := s!"invalid parameter '{param}': expected key=value" }

def emptyKey (param : String) : Complaint :=
  { message := s!"invalid parameter '{param}': empty key" }

end Complaint
end Runbook.Console
