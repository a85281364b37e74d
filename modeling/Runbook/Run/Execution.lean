import Runbook.Config
import Runbook.Memory.Recall
import Runbook.Run.Context
import Runbook.Run.Question
import Runbook.Workflow.Basic

/-!
# Running a workflow

Steps run strictly one after another. A step reads its memory, resolves its inputs, asks for
approval if it has a gate, calls its tool if it has one, and is recorded before the next step
starts.

A run is aborted by a failed step whose policy says so, by a gate that is not passed, by a request
to stop, and by a failure to write. The remaining steps are skipped and recorded as such; after a
failure to write they are recorded as well as the store allows. Every run ends with one result per
step, in the order of the steps.
-/

set_option autoImplicit false

namespace Runbook.Execution

open RunDialogue

/-- How a step ended, before the run draws consequences. -/
inductive StepEnd where
  | finished (result : StepResult)
  /-- The step was not dispatched, and the run has to end. -/
  | halted (result : StepResult) (reason : AbortReason)

/-! ## One step -/

/-- The step failed now. -/
def failedNow (step : Step) (f : Failure) (startedAt : Instant) : RunDialogue StepResult := do
  return StepResult.failed step.name f startedAt (← time)

/-- The step succeeded now. -/
def succeededNow (step : Step) (o : ToolOutput) (startedAt : Instant) : RunDialogue StepResult := do
  return StepResult.success step.name o startedAt (← time)

/-- The memory of a step; without needs the store is not asked. -/
def stepMemory (c : Config) (run : RunId) (step : Step) :
    RunDialogue (Except StoreError (Fields Json)) :=
  if step.needs.isEmpty then pure (.ok [])
  else ofStore (Memory.recall c.tolerateReadErrors run [] step.needs)

/-- Resolves the inputs in their order; the first that cannot be resolved is reported. -/
def resolveInputs (policy : MissingPath) (scope : Scope) :
    Fields Template → Except Failure (Fields Json)
  | [] => .ok []
  | (key, template) :: rest =>
      match Template.resolve policy scope template with
      | .error e => .error ⟨.templateResolution, s!"input '{key}': {e.message}"⟩
      | .ok v =>
          match resolveInputs policy scope rest with
          | .error f => .error f
          | .ok fs => .ok ((key, v) :: fs)

/-- What came of the gate of a step. -/
inductive GatePass where
  /-- There is no gate, or it was passed with this prompt. -/
  | passed (prompt : Option String)
  | failed (f : Failure)
  | halted (reason : AbortReason)

/-- Asks for approval once, if the step has a gate. -/
def passGate (c : Config) (scope : Scope) (step : Step) : RunDialogue GatePass :=
  match step.gatePrompt? with
  | none => pure (.passed none)
  | some template =>
      match Template.render c.missingPath scope template with
      | .error e => pure (.failed ⟨.templateResolution, e.message⟩)
      | .ok prompt => do
          match ← approval step.name prompt c.gateTimeoutSecs with
          | .approved => return .passed (some prompt)
          | .denied => return .halted (.gateDenied step.name)
          | .expired => return .halted (.gateExpired step.name)
          | .stopped => return .halted (.cancelled (some step.name))

/-- The work of a step that passed its gate: a tool's, or the approved prompt itself. -/
def work (step : Step) (inputs : Fields Json) (prompt : Option String) (startedAt : Instant) :
    RunDialogue StepResult :=
  match step.tool with
  | none => succeededNow step (ToolOutput.ofText (prompt.getD "")) startedAt
  | some tool => do
      match ← call tool inputs step.timeoutSecs with
      | .ok output => succeededNow step output startedAt
      | .error f => failedNow step f startedAt

/-- Runs one step. -/
def runStep (c : Config) (run : RunId) (ctx : RunContext) (step : Step) : RunDialogue StepEnd := do
  let startedAt ← time
  match ← stepMemory c run step with
  | .error e => return .finished (← failedNow step ⟨.storeRead, e.message⟩ startedAt)
  | .ok memory =>
      let scope := ctx.scope memory
      match resolveInputs c.missingPath scope step.inputs with
      | .error f => return .finished (← failedNow step f startedAt)
      | .ok inputs =>
          match ← passGate c scope step with
          | .failed f => return .finished (← failedNow step f startedAt)
          | .halted reason => return .halted (StepResult.skipped step.name) reason
          | .passed prompt => return .finished (← work step inputs prompt startedAt)

/-- What the end of a step means for the run: a step that was stopped always aborts it, any other
failure only if the step's policy says so. -/
def consequence (step : Step) (r : StepResult) : Option AbortReason :=
  match r.error with
  | none => none
  | some f =>
      if f.kind = .cancelled then some (.cancelled (some step.name))
      else
        match step.onFailure with
        | .proceed => none
        | .abortChain => some (.stepFailed step.name f.kind f.message)

/-- Runs a step, unless the run has been told to stop. -/
def attempt (c : Config) (run : RunId) (ctx : RunContext) (step : Step) :
    RunDialogue (StepResult × Option AbortReason) := do
  if ← stopRequested then return (StepResult.skipped step.name, some (.cancelled none))
  else
    match ← runStep c run ctx step with
    | .finished r => return (r, consequence step r)
    | .halted r reason => return (r, some reason)

/-! ## Recording -/

/-- Records a step. -/
def record (run : RunId) (r : StepResult) : RunDialogue (Except StoreError Unit) :=
  ofStore (Memory.recordStep run r)

/-- A step whose record could not be written. A success that cannot be confirmed is a failure;
other results stay. -/
def unrecorded (r : StepResult) (message : String) : RunDialogue StepResult :=
  if r.status = .success then do
    let startedAt ← match r.startedAt with
      | some t => pure t
      | none => time
    let f : Failure := ⟨.storeWrite, s!"step result could not be recorded: {message}"⟩
    return StepResult.failed r.step f startedAt (← time)
  else pure r

/-- Skips the steps and records them as well as the store allows. -/
def skipAfterFault (run : RunId) : List Step → RunDialogue (List StepResult)
  | [] => pure []
  | step :: rest => do
      let r := StepResult.skipped step.name
      let _ ← record run r
      return r :: (← skipAfterFault run rest)

/-- Skips the steps and records them; a failure to write becomes the reason of the abort. -/
def skip (run : RunId) (reason : AbortReason) :
    List Step → RunDialogue (List StepResult × AbortReason)
  | [] => pure ([], reason)
  | step :: rest => do
      let r := StepResult.skipped step.name
      match ← record run r with
      | .ok () =>
          let (rs, reason) ← skip run reason rest
          return (r :: rs, reason)
      | .error e =>
          return (r :: (← skipAfterFault run rest), .storeWrite step.name e.message)

/-- Ends a run after a step whose record could not be written. -/
def endUnrecorded (run : RunId) (r : StepResult) (e : StoreError) (rest : List Step) :
    RunDialogue (List StepResult) := do
  let kept ← unrecorded r e.message
  if kept.status = .failed then
    let _ ← record run kept
  return kept :: (← skipAfterFault run rest)

/-! ## The run -/

/-- Runs the steps in order, up to the first reason to abort. -/
def runSteps (c : Config) (run : RunId) :
    RunContext → List Step → RunDialogue (List StepResult × Option AbortReason)
  | _, [] => pure ([], none)
  | ctx, step :: rest => do
      let (r, abort) ← attempt c run ctx step
      match ← record run r with
      | .error e => return (← endUnrecorded run r e rest, some (.storeWrite step.name e.message))
      | .ok () =>
          match abort with
          | some reason =>
              let (rs, reason) ← skip run reason rest
              return (r :: rs, some reason)
          | none =>
              let (rs, abort) ← runSteps c run (ctx.record r) rest
              return (r :: rs, abort)

/-- Runs a workflow with its bound parameters. -/
def execute (c : Config) (w : Workflow) (run : RunId) (params : Fields Json) :
    RunDialogue RunRecord := do
  let startedAt ← time
  let (steps, abort) ← (do
    match ← ofStore (Memory.startRun run w.name params) with
    | .error e =>
        return (w.steps.map fun s => StepResult.skipped s.name,
          some (.storeWrite Memory.runStartStep e.message))
    | .ok () =>
        runSteps c run { params, maxOutputBytes := c.maxStepOutputBytes } w.steps)
  return {
    id := run, workflow := w.name, params
    status := if abort.isSome then .aborted else .completed
    steps, abort, startedAt, finishedAt := some (← time) }

end Runbook.Execution
