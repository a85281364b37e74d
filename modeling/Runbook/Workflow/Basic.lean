import Runbook.Template.Basic
import Runbook.Workflow.Need
import Runbook.Workflow.Param

/-!
# Workflows

A workflow is a named list of steps with declared parameters. A step runs one tool on inputs that
may refer to parameters, earlier steps and memory; it may ask for approval first. A step without a
tool only asks for approval.
-/

set_option autoImplicit false

namespace Runbook

/-- What a failed step means for its run. -/
inductive OnFailure where
  /-- The run stops and the remaining steps are skipped. -/
  | abortChain
  /-- The next step runs. -/
  | proceed
  deriving DecidableEq, Repr, Inhabited

namespace OnFailure

def display : OnFailure → String
  | .abortChain => "abort_chain"
  | .proceed => "continue"

def decode : Decoder OnFailure :=
  Decode.variant [("abort_chain", .abortChain), ("continue", .proceed)]

end OnFailure

/-- A request for approval; without a prompt a generic question is asked. -/
structure Gate where
  prompt : Option String
  deriving DecidableEq, Repr

structure Step where
  name : String
  tool : Option String := none
  inputs : Fields Template := []
  needs : List Need := []
  gate : Option Gate := none
  onFailure : OnFailure := .abortChain
  timeoutSecs : Option Nat := none

namespace Step

/-- A step that runs a tool. -/
def run (name tool : String) : Step := { name, tool := some tool }

/-- A step without a tool that asks for approval. -/
def checkpoint (name prompt : String) : Step := { name, gate := some ⟨some prompt⟩ }

def withInput (s : Step) (key : String) (value : Template) : Step :=
  { s with inputs := Fields.put key value s.inputs }

def withNeed (s : Step) (need : Need) : Step := { s with needs := s.needs ++ [need] }

def withGate (s : Step) (prompt : String) : Step := { s with gate := some ⟨some prompt⟩ }

def withPolicy (s : Step) (policy : OnFailure) : Step := { s with onFailure := policy }

/-- The template of the question that the step's gate asks. -/
def gatePrompt? (s : Step) : Option String :=
  s.gate.map fun g => g.prompt.getD s!"Approve step '{s.name}'?"

end Step

structure Workflow where
  name : String
  description : Option String
  params : List Param
  steps : List Step

namespace Workflow

/-- The first step of that name. -/
def step? (w : Workflow) (name : String) : Option Step := w.steps.find? (·.name = name)

def stepNames (w : Workflow) : List String := w.steps.map (·.name)

/-- The first parameter of that name. -/
def param? (w : Workflow) (name : String) : Option Param := w.params.find? (·.name = name)

end Workflow
end Runbook
