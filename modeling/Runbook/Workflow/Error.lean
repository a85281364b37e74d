import Runbook.Workflow.Need

/-!
# What can be wrong with a workflow

A workflow file may be unreadable, its content may not be a workflow, or the workflow may break a
rule. Each cause is a constructor; the wording is in one function per type.
-/

set_option autoImplicit false

namespace Runbook.Workflow

/-- Why a step may not refer to another step. -/
inductive StepReferenceFault where
  | runsLater (step : String)
  | unknown (step : String)
  deriving DecidableEq, Repr

def StepReferenceFault.message : StepReferenceFault → String
  | .runsLater step => s!"refers to step '{step}' which runs later"
  | .unknown step => s!"refers to unknown step '{step}'"

/-- Why a placeholder is not admitted. -/
inductive ReferenceFault where
  | undeclaredParam (path param : String)
  | badStep (path : String) (fault : StepReferenceFault)
  | badRoot (path : String)
  deriving DecidableEq, Repr

/-- A path between its braces. -/
def braced (path : String) : String := "'\x7b\x7b" ++ path ++ "\x7d\x7d'"

def ReferenceFault.message : ReferenceFault → String
  | .undeclaredParam path param => s!"{braced path} references undeclared parameter '{param}'"
  | .badStep path fault => s!"{braced path} {fault.message}"
  | .badRoot path => s!"{braced path} must start with params., steps. or memory."

/-- What can be wrong with a named step. -/
inductive StepFault where
  | duplicateName
  | emptyTool
  | neitherToolNorGate
  | zeroTimeout
  | reference (fault : ReferenceFault)
  | needStep (need : Need) (fault : StepReferenceFault)
  | needNotText
  | badNeed (fault : NeedError)
  | unknownTool (tool : String) (available : List String)
  | missingQueries (tool : String)
  | nestedQuery (index : Nat) (tool : String)
  | unknownQueryTool (index : Nat) (tool : String)
  deriving DecidableEq, Repr

/-- The wording behind the name of the step. -/
def StepFault.message : StepFault → String
  | .duplicateName => "duplicate step name"
  | .emptyTool => "empty tool name"
  | .neitherToolNorGate => "needs a tool or a gate"
  | .zeroTimeout => "timeout_secs must be positive"
  | .reference fault => fault.message
  | .needStep need fault => s!"need '{need.display}' {fault.message}"
  | .needNotText => "memory needs must be strings"
  | .badNeed fault => fault.message
  | .unknownTool tool available =>
      s!"unknown tool '{tool}' (available: " ++ Text.join ", " available ++ ")"
  | .missingQueries tool => s!"'{tool}' needs a 'queries' input"
  | .nestedQuery index tool => s!"query {index} cannot nest '{tool}'"
  | .unknownQueryTool index tool => s!"query {index} uses unknown tool '{tool}'"

/-- Which rule a workflow breaks. -/
inductive Fault where
  | emptyName
  | noSteps (workflow : String)
  | emptyParamName (workflow : String)
  | duplicateParam (workflow param : String)
  | emptyStepName (workflow : String)
  | atStep (workflow step : String) (fault : StepFault)
  | missingParams (workflow : String) (params : List String)
  | definedTwice (workflow : String)
  deriving DecidableEq, Repr

def Fault.message : Fault → String
  | .emptyName => "workflow name must not be empty"
  | .noSteps w => s!"workflow '{w}' has no steps"
  | .emptyParamName w => s!"workflow '{w}': empty parameter name"
  | .duplicateParam w p => s!"workflow '{w}': duplicate parameter '{p}'"
  | .emptyStepName w => s!"workflow '{w}': step with empty name"
  | .atStep w s fault => s!"workflow '{w}', step '{s}': {fault.message}"
  | .missingParams w ps =>
      s!"workflow '{w}' is missing required parameter(s): " ++ Text.join ", " ps
  | .definedTwice w => s!"workflow '{w}' is defined more than once"

/-- Why a text is not a list of workflows. -/
inductive ParseFault where
  /-- The text is not in the format at all. -/
  | malformed (detail : String)
  | workflowsNotMap
  | noWorkflow
  | undecodable (label : String) (cause : DecodeError)
  | notOne (count : Nat)
  deriving DecidableEq, Repr

def ParseFault.message : ParseFault → String
  | .malformed detail => detail
  | .workflowsNotMap => "'workflows' must be a map"
  | .noWorkflow => "expected a workflow definition or a 'workflows' map"
  | .undecodable label cause => s!"workflow '{label}': {cause.message}"
  | .notOne count => s!"expected one workflow, found {count}"

inductive Error where
  | parse (fault : ParseFault)
  | invalid (fault : Fault)
  | unreadable (detail : String)
  deriving DecidableEq, Repr

def Error.message : Error → String
  | .parse fault => s!"parse error: {fault.message}"
  | .invalid fault => s!"validation error: {fault.message}"
  | .unreadable detail => s!"I/O error: {detail}"

end Runbook.Workflow
