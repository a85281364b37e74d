import Runbook.Memory.History
import Runbook.Run.Execution
import Runbook.Schedule.World
import Runbook.Workflow.Binding
import Runbook.Workflow.Check
import Runbook.Workflow.Codec

/-!
# The engine

An engine has workflows that have been checked, with the tools that they use. It starts a run if
it has the workflow, the parameters can be bound, and no run of that name is in flight; otherwise
nothing changes. What was recorded of a run can be inspected.
-/

set_option autoImplicit false

namespace Runbook

inductive EngineError where
  | unknownWorkflow (name : String)
  | unknownRun (run : RunId)
  | runActive (run : RunId)
  | invalid (fault : Workflow.Fault)
  | store (e : StoreError)
  deriving DecidableEq, Repr

namespace EngineError

def message : EngineError → String
  | .unknownWorkflow name => s!"unknown workflow '{name}'"
  | .unknownRun run => s!"no recorded memory for run '{run}'"
  | .runActive run => s!"run '{run}' is already active"
  | .invalid fault => (Workflow.Error.invalid fault).message
  | .store e => s!"memory store error: {e.message}"

end EngineError

structure Engine where
  config : Config
  registry : Registry
  workflows : List Workflow

/-- The runs in flight, each with the signal that stops it. -/
abbrev ActiveRuns := Fields Schedule.Signal

namespace Engine

/-- Each workflow keeps the rules and names known tools only, and no name repeats. -/
def checkWorkflows (tools : List String) : (seen : List String) → List Workflow →
    Except Workflow.Fault Unit
  | _, [] => .ok ()
  | seen, w :: ws =>
      match w.check with
      | .error e => .error e
      | .ok () =>
          match w.checkTools tools with
          | .error e => .error e
          | .ok () =>
              if seen.contains w.name then .error (.definedTwice w.name)
              else checkWorkflows tools (w.name :: seen) ws

/-- An engine with these workflows, if they are in order. -/
def make (c : Config) (r : Registry) (ws : List Workflow) : Except Workflow.Fault Engine :=
  match checkWorkflows r.names [] ws with
  | .error e => .error e
  | .ok () => .ok { config := c, registry := r, workflows := ws }

def workflow? (e : Engine) (name : String) : Option Workflow :=
  e.workflows.find? (·.name = name)

/-! ## Starting and stopping runs -/

/-- Starts a run: what it is going to do, and the runs in flight with this one among them. -/
def start (e : Engine) (active : ActiveRuns) (workflow : String) (run : RunId)
    (params : Fields Json) (signal : Schedule.Signal) :
    Except EngineError (RunDialogue RunRecord × ActiveRuns) :=
  match e.workflow? workflow with
  | none => .error (.unknownWorkflow workflow)
  | some w =>
      match w.bindParams params with
      | .error f => .error (.invalid f)
      | .ok params =>
          if Fields.has run active then .error (.runActive run)
          else .ok (Execution.execute e.config w run params, active ++ [(run, signal)])

/-- The run is no longer in flight. -/
def release (run : RunId) (active : ActiveRuns) : ActiveRuns := active.filter fun e => e.1 ≠ run

/-! ## Inspecting runs -/

/-- Everything recorded for a run. -/
structure Inspection where
  run : RunId
  steps : List StepResult
  /-- Oldest first. -/
  slices : List Slice

def Inspection.encode (i : Inspection) : Json :=
  .obj [("run_id", .str i.run), ("steps", .arr (i.steps.map StepResult.encode)),
    ("slices", .arr (i.slices.map Slice.encode))]

/-- What was recorded for a run; it is unknown if that is nothing. -/
def inspect (run : RunId) : Memory.StoreDialogue (Except EngineError Inspection) := do
  match ← Dialogue.question (Memory.StoreQuestion.history run) with
  | .error e => return .error (.store e)
  | .ok [] => return .error (.unknownRun run)
  | .ok slices =>
      match ← Dialogue.question (Memory.StoreQuestion.history run) with
      | .error e => return .error (.store e)
      | .ok again => return .ok { run, steps := Memory.stepResults again, slices }

end Engine
end Runbook
