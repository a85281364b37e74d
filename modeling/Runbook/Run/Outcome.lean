import Runbook.Instant

/-!
# Outcomes of tools and steps

A tool ends with an output or with a failure of a known kind. The output of a fan-out carries the
results of its queries in the order of the queries. A step result says how the step ended, with
the output or the failure and the times, where there are any.
-/

set_option autoImplicit false

namespace Runbook

inductive Status where
  | success
  | failed
  | skipped
  deriving DecidableEq, Repr, Inhabited

namespace Status

def display : Status → String
  | .success => "success"
  | .failed => "failed"
  | .skipped => "skipped"

def decode : Decoder Status :=
  Decode.variant [("success", .success), ("failed", .failed), ("skipped", .skipped)]

end Status

inductive FailureKind where
  | toolValidation
  | toolExecution
  | unknownTool
  | timeout
  | templateResolution
  | storeRead
  | storeWrite
  | cancelled
  | panicked
  deriving DecidableEq, Repr, Inhabited

namespace FailureKind

def display : FailureKind → String
  | .toolValidation => "tool_validation"
  | .toolExecution => "tool_execution"
  | .unknownTool => "unknown_tool"
  | .timeout => "timeout"
  | .templateResolution => "template_resolution"
  | .storeRead => "store_read"
  | .storeWrite => "store_write"
  | .cancelled => "cancelled"
  | .panicked => "panicked"

def all : List FailureKind :=
  [.toolValidation, .toolExecution, .unknownTool, .timeout, .templateResolution, .storeRead,
    .storeWrite, .cancelled, .panicked]

def decode : Decoder FailureKind := Decode.variant (all.map fun k => (k.display, k))

end FailureKind

/-- Why a step or a query failed. -/
structure Failure where
  kind : FailureKind
  message : String
  deriving DecidableEq, Repr, Inhabited

namespace Failure

def display (f : Failure) : String := s!"{f.kind.display}: {f.message}"

def encode (f : Failure) : Json :=
  .obj [("kind", .str f.kind.display), ("message", .str f.message)]

def decode : Decoder Failure := fun v => do
  let fs ← Decode.record "StepFailure"
    [Decode.field "kind" FailureKind.decode, Decode.field "message" Decode.text] v
  return {
    kind := ← Decode.required "kind" FailureKind.decode fs
    message := ← Decode.required "message" Decode.text fs }

end Failure

/-- The result of one query of a fan-out. -/
structure QueryResult where
  index : Nat
  tool : String
  status : Status
  output : String
  metadata : Fields Json
  error : Option Failure
  deriving Inhabited

namespace QueryResult

def encode (r : QueryResult) : Json :=
  .obj ([("index", Json.nat r.index), ("tool", .str r.tool), ("status", .str r.status.display),
      ("output", .str r.output), ("metadata", .obj r.metadata)] ++
    Encode.optional "error" (r.error.map Failure.encode))

def knownFields : List Decode.FieldCheck :=
  [ Decode.field "index" Decode.size,
    Decode.field "tool" Decode.text,
    Decode.field "status" Status.decode,
    Decode.spare "output" Decode.text,
    Decode.spare "metadata" (Decode.table Decode.any),
    Decode.spare "error" (Decode.option Failure.decode) ]

def decode : Decoder QueryResult := fun v => do
  let fs ← Decode.record "SubResult" knownFields v
  return {
    index := ← Decode.required "index" Decode.size fs
    tool := ← Decode.required "tool" Decode.text fs
    status := ← Decode.required "status" Status.decode fs
    output := ← Decode.withDefault "output" Decode.text "" fs
    metadata := ← Decode.withDefault "metadata" (Decode.table Decode.any) [] fs
    error := ← Decode.optional "error" Failure.decode fs }

end QueryResult

/-- What a tool produced. -/
structure ToolOutput where
  output : String := ""
  outputs : List QueryResult := []
  metadata : Fields Json := []
  deriving Inhabited

namespace ToolOutput

/-- Plain text. -/
def ofText (s : String) : ToolOutput := { output := s }

def encode (o : ToolOutput) : Json :=
  .obj (Encode.field "output" (.str o.output) ++
    Encode.when (!o.outputs.isEmpty) "outputs" (.arr (o.outputs.map QueryResult.encode)) ++
    Encode.field "metadata" (.obj o.metadata))

def knownFields : List Decode.FieldCheck :=
  [ Decode.field "output" Decode.text,
    Decode.spare "outputs" (Decode.list QueryResult.decode),
    Decode.spare "metadata" (Decode.table Decode.any) ]

def decode : Decoder ToolOutput := fun v => do
  let fs ← Decode.record "ToolOutput" knownFields v
  return {
    output := ← Decode.required "output" Decode.text fs
    outputs := ← Decode.withDefault "outputs" (Decode.list QueryResult.decode) [] fs
    metadata := ← Decode.withDefault "metadata" (Decode.table Decode.any) [] fs }

end ToolOutput

structure StepResult where
  step : String
  status : Status
  output : Option ToolOutput := none
  error : Option Failure := none
  startedAt : Option Instant := none
  finishedAt : Option Instant := none
  deriving Inhabited

namespace StepResult

def success (step : String) (output : ToolOutput) (startedAt finishedAt : Instant) : StepResult :=
  { step, status := .success, output, startedAt, finishedAt }

def failed (step : String) (error : Failure) (startedAt finishedAt : Instant) : StepResult :=
  { step, status := .failed, error, startedAt, finishedAt }

def skipped (step : String) : StepResult := { step, status := .skipped }

/-- The text of the output, if there is one. -/
def outputText? (r : StepResult) : Option String := r.output.map (·.output)

/-- Whole milliseconds between the two times, if both are there. -/
def duration? (r : StepResult) : Option Int := do
  return Instant.millisBetween (← r.startedAt) (← r.finishedAt)

def encode (r : StepResult) : Json :=
  .obj ([("step_name", .str r.step), ("status", .str r.status.display)] ++
    Encode.optional "output" (r.output.map ToolOutput.encode) ++
    Encode.optional "error" (r.error.map Failure.encode) ++
    Encode.optional "started_at" (r.startedAt.map fun t => .str t.text) ++
    Encode.optional "finished_at" (r.finishedAt.map fun t => .str t.text))

def knownFields : List Decode.FieldCheck :=
  [ Decode.field "step_name" Decode.text,
    Decode.field "status" Status.decode,
    Decode.spare "output" (Decode.option ToolOutput.decode),
    Decode.spare "error" (Decode.option Failure.decode),
    Decode.spare "started_at" (Decode.option Instant.decode),
    Decode.spare "finished_at" (Decode.option Instant.decode) ]

def decode : Decoder StepResult := fun v => do
  let fs ← Decode.record "StepResult" knownFields v
  return {
    step := ← Decode.required "step_name" Decode.text fs
    status := ← Decode.required "status" Status.decode fs
    output := ← Decode.optional "output" ToolOutput.decode fs
    error := ← Decode.optional "error" Failure.decode fs
    startedAt := ← Decode.optional "started_at" Instant.decode fs
    finishedAt := ← Decode.optional "finished_at" Instant.decode fs }

end StepResult
end Runbook
