import Runbook.Workflow.Check
import Runbook.Workflow.Codec
import Runbook.Yaml.Document

/-!
# Workflows of a document

A document is either a table with `workflows`, from names to workflows, or one workflow. A
workflow without a name of its own takes the name it stands under. Malformed needs are reported
with the step they stand in, before anything else about the workflow. Every workflow has to keep
the rules.
-/

set_option autoImplicit false

namespace Runbook.Workflow

/-- The text of a field, or a stand-in. -/
def labelOf (v : Json) : String := ((v.field? "name").bind Json.str?).getD "<unnamed>"

/-- A need is a text and reads as a need. -/
def checkNeedText (v : Json) : Except StepFault Unit :=
  match v with
  | .str s =>
      match Need.parse s with
      | .ok _ => .ok ()
      | .error e => .error (.badNeed e)
  | _ => .error .needNotText

/-- The needs written in a step, if they are a list. -/
def needTexts (step : Json) : List Json :=
  (((step.field? "memory").bind (Json.field? "needs")).bind Json.arr?).getD []

def checkStepNeedTexts (label : String) (step : Json) : Except Fault Unit :=
  (firstFault checkNeedText (needTexts step)).mapError fun e => .atStep label (labelOf step) e

/-- All needs of a workflow read as needs. -/
def checkNeedTexts (label : String) (body : Json) : Except Fault Unit :=
  firstFault (checkStepNeedTexts label) (((body.field? "steps").bind Json.arr?).getD [])

/-- The workflow that a body stands for. -/
def ofBody (label : String) (body : Json) : Except Error Workflow :=
  match checkNeedTexts label body with
  | .error e => .error (.invalid e)
  | .ok () =>
      match decode body with
      | .error e => .error (.parse (.undecodable label e))
      | .ok w => .ok w

/-- A workflow without a name takes the one it stands under. -/
def named (name : String) (w : Workflow) : Workflow :=
  if w.name.isEmpty then { w with name } else w

/-- The workflows of a table from names to bodies. -/
def ofBodies : Fields Json → Except Error (List Workflow)
  | [] => .ok []
  | (name, body) :: rest =>
      match ofBody name body with
      | .error e => .error e
      | .ok w =>
          match ofBodies rest with
          | .error e => .error e
          | .ok ws => .ok (named name w :: ws)

/-- The workflows of a document, not yet held to the rules. -/
def unchecked (document : Json) : Except Error (List Workflow) :=
  match document with
  | .obj root =>
      match Fields.get? "workflows" root with
      | some (.obj bodies) => ofBodies bodies
      | some _ => .error (.parse .workflowsNotMap)
      | none => (ofBody (labelOf document) document).map fun w => [w]
  | _ => .error (.parse .noWorkflow)

/-- The workflows of a document. -/
def ofDocument (document : Json) : Except Error (List Workflow) :=
  match unchecked document with
  | .error e => .error e
  | .ok ws =>
      match firstFault check ws with
      | .error e => .error (.invalid e)
      | .ok () => .ok ws

/-- The workflows of a text. -/
def ofText (text : String) : Except Error (List Workflow) :=
  match Yaml.Document.ofText text with
  | .error e => .error (.parse (.malformed e.message))
  | .ok document => ofDocument document

/-- The only workflow of a text. -/
def oneOfText (text : String) : Except Error Workflow :=
  match ofText text with
  | .error e => .error e
  | .ok [w] => .ok w
  | .ok ws => .error (.parse (.notOne ws.length))

end Runbook.Workflow
