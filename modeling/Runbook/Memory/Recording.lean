import Runbook.Memory.Store

/-!
# What a run records

A run starts with its parameters, and with the user's prompt in front if there is one among them.
A step is recorded by its encoded result, the authoritative record, followed by its output if it
succeeded, or its error if it failed, for later steps to read. The slices of one record are
appended in order up to the first failure.
-/

set_option autoImplicit false

namespace Runbook.Memory

/-- The parameter that is recorded as the user's prompt. -/
def userPromptParam : String := "user_prompt"

/-- The step name under which the user's prompt is recorded. -/
def initialPromptStep : String := "__initial__"

/-- The step name under which the parameters are recorded. -/
def runStartStep : String := "__run__"

/-- The slices that start a run. -/
def startSlices (run : RunId) (workflow : String) (params : Fields Json) : List NewSlice :=
  let metadata : Fields Json := [("workflow", .str workflow)]
  let prompt := (Fields.get? userPromptParam params).map fun p =>
    { run, step := initialPromptStep, classification := .userPrompt, content := p.display,
      metadata : NewSlice }
  prompt.toList ++
    [{ run, step := runStartStep, classification := .parameters
       content := (Json.obj params).compress, metadata }]

/-- The authoritative record of a step. -/
def resultSlice (run : RunId) (r : StepResult) : NewSlice :=
  { run, step := r.step, classification := .stepResult, content := r.encode.compress
    metadata := [("status", .str r.status.display)] }

/-- The slice of a successful step's output. -/
def outputSlice (run : RunId) (r : StepResult) (o : ToolOutput) : NewSlice :=
  let metadata := match r.duration? with
    | some ms => Fields.put "execution_time_ms" (Json.int ms) o.metadata
    | none => o.metadata
  { run, step := r.step, classification := .output, content := o.output, metadata }

/-- The slice of a failed step's error. -/
def errorSlice (run : RunId) (r : StepResult) (f : Failure) : NewSlice :=
  { run, step := r.step, classification := .error, content := f.message
    metadata := [("kind", .str f.kind.display)] }

/-- The slice that follows the record of a step, if any does. -/
def detailSlice? (run : RunId) (r : StepResult) : Option NewSlice :=
  match r.status with
  | .success => r.output.map (outputSlice run r)
  | .failed => r.error.map (errorSlice run r)
  | .skipped => none

/-- The slices of a step. -/
def stepSlices (run : RunId) (r : StepResult) : List NewSlice :=
  resultSlice run r :: (detailSlice? run r).toList

/-- Every failure to append is a failure to write. -/
def asWriteError : StoreError → StoreError
  | .write m => .write m
  | e => .write e.message

/-- Appends the slices in order, up to the first failure. -/
def appendAll : List NewSlice → StoreDialogue (Except StoreError Unit)
  | [] => .done (.ok ())
  | s :: rest =>
      .ask (.append s) fun r =>
        match r with
        | .ok _ => appendAll rest
        | .error e => .done (.error (asWriteError e))

/-- Records the start of a run. -/
def startRun (run : RunId) (workflow : String) (params : Fields Json) :
    StoreDialogue (Except StoreError Unit) := appendAll (startSlices run workflow params)

/-- Records a step. -/
def recordStep (run : RunId) (r : StepResult) : StoreDialogue (Except StoreError Unit) :=
  appendAll (stepSlices run r)

end Runbook.Memory
