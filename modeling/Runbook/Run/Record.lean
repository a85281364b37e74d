import Runbook.Run.Outcome

/-!
# Runs

A run is one execution of a workflow: its parameters, the results of its steps, and the reason if
it was aborted. A run id is made from the workflow's name, the time and a random tail, and is safe
as a file name.
-/

set_option autoImplicit false

namespace Runbook

/-- The name of a run. -/
abbrev RunId := String

namespace RunId

/-- An ASCII letter or digit, `-` or `_`. -/
def plainChar (c : Char) : Bool :=
  ('a' ≤ c && c ≤ 'z') || ('A' ≤ c && c ≤ 'Z') || ('0' ≤ c && c ≤ '9') || c == '-' || c == '_'

/-- The workflow's name with `_` for every other character. -/
def slug (workflow : String) : String :=
  String.ofList (workflow.toList.map fun c => if plainChar c then c else '_')

/-- Eight hexadecimal digits. -/
def tail (n : Nat) : String :=
  let ds := Nat.toDigits 16 (n % Nat.pow 2 32)
  String.ofList (List.replicate (8 - ds.length) '0' ++ ds)

/-- The id of a run of a workflow that starts at a time, with a tail of 32 bits. -/
def make (workflow : String) (now : Instant) (random : Nat) : RunId :=
  let (y, m, d, n) := now.calendar
  let s := n / 1000000000
  slug workflow ++ "_" ++ Instant.yearText y ++ Text.padded 2 m ++ Text.padded 2 d ++ "_" ++
    Text.padded 2 (s / 3600) ++ Text.padded 2 (s / 60 % 60) ++ Text.padded 2 (s % 60) ++ "_" ++
    tail random

end RunId

inductive RunStatus where
  | running
  | completed
  | aborted
  deriving DecidableEq, Repr, Inhabited

namespace RunStatus

def display : RunStatus → String
  | .running => "running"
  | .completed => "completed"
  | .aborted => "aborted"

def decode : Decoder RunStatus :=
  Decode.variant [("running", .running), ("completed", .completed), ("aborted", .aborted)]

end RunStatus

/-- Why a run was aborted. -/
inductive AbortReason where
  | stepFailed (step : String) (kind : FailureKind) (message : String)
  | gateDenied (step : String)
  | gateExpired (step : String)
  | storeWrite (step message : String)
  | cancelled (step : Option String)
  deriving DecidableEq, Repr

namespace AbortReason

/-- The step that the reason names. -/
def step? : AbortReason → Option String
  | .stepFailed s _ _ => some s
  | .gateDenied s => some s
  | .gateExpired s => some s
  | .storeWrite s _ => some s
  | .cancelled s => s

def display : AbortReason → String
  | .stepFailed s kind message => s!"step '{s}' failed ({kind.display}): {message}"
  | .gateDenied s => s!"approval denied at step '{s}'"
  | .gateExpired s => s!"approval timed out at step '{s}'"
  | .storeWrite s message => s!"could not record step '{s}': {message}"
  | .cancelled (some s) => s!"cancelled during step '{s}'"
  | .cancelled none => "cancelled"

/-- The name of the reason. -/
def tag : AbortReason → String
  | .stepFailed .. => "step_failed"
  | .gateDenied _ => "gate_denied"
  | .gateExpired _ => "gate_expired"
  | .storeWrite .. => "store_write"
  | .cancelled _ => "cancelled"

def tags : List String := ["step_failed", "gate_denied", "gate_expired", "store_write", "cancelled"]

def encode (a : AbortReason) : Json :=
  .obj (("reason", .str a.tag) ::
    match a with
    | .stepFailed s kind message =>
        [("step", .str s), ("kind", .str kind.display), ("message", .str message)]
    | .gateDenied s => [("step", .str s)]
    | .gateExpired s => [("step", .str s)]
    | .storeWrite s message => [("step", .str s), ("message", .str message)]
    | .cancelled s => Encode.optional "step" (s.map .str))

/-- Reads the fields that belong to a tag. -/
def decodeTagged (tag : String) (v : Json) : Except DecodeError AbortReason :=
  let step := Decode.field "step" Decode.text
  match tag with
  | "step_failed" => do
      let fs ← Decode.record "variant AbortReason::StepFailed"
        [step, Decode.field "kind" FailureKind.decode, Decode.field "message" Decode.text] v
      return .stepFailed (← Decode.required "step" Decode.text fs)
        (← Decode.required "kind" FailureKind.decode fs)
        (← Decode.required "message" Decode.text fs)
  | "gate_denied" => do
      let fs ← Decode.record "variant AbortReason::GateDenied" [step] v
      return .gateDenied (← Decode.required "step" Decode.text fs)
  | "gate_expired" => do
      let fs ← Decode.record "variant AbortReason::GateExpired" [step] v
      return .gateExpired (← Decode.required "step" Decode.text fs)
  | "store_write" => do
      let fs ← Decode.record "variant AbortReason::StoreWrite"
        [step, Decode.field "message" Decode.text] v
      return .storeWrite (← Decode.required "step" Decode.text fs)
        (← Decode.required "message" Decode.text fs)
  | "cancelled" => do
      let fs ← Decode.record "variant AbortReason::Cancelled"
        [Decode.spare "step" (Decode.option Decode.text)] v
      return .cancelled (← Decode.optional "step" Decode.text fs)
  | tag => .error (.unknownVariant tag tags)

/-- Reads the tag first, then the fields that belong to it. -/
def decode : Decoder AbortReason := fun v => do
  let (tag, fields) ← Decode.tagged "reason" v
  decodeTagged tag fields

end AbortReason

structure RunRecord where
  id : RunId
  workflow : String
  params : Fields Json
  status : RunStatus
  steps : List StepResult
  abort : Option AbortReason
  startedAt : Instant
  finishedAt : Option Instant

namespace RunRecord

/-- The first result of that step. -/
def step? (r : RunRecord) (name : String) : Option StepResult := r.steps.find? (·.step = name)

def failedSteps (r : RunRecord) : List StepResult := r.steps.filter (·.status = .failed)

/-- Completed although a step failed. -/
def isPartial (r : RunRecord) : Bool := r.status = .completed && !r.failedSteps.isEmpty

def encode (r : RunRecord) : Json :=
  .obj ([("id", .str r.id), ("workflow_name", .str r.workflow), ("params", .obj r.params),
      ("status", .str r.status.display), ("steps", .arr (r.steps.map StepResult.encode))] ++
    Encode.optional "abort" (r.abort.map AbortReason.encode) ++
    Encode.field "started_at" (.str r.startedAt.text) ++
    Encode.optional "finished_at" (r.finishedAt.map fun t => .str t.text))

def knownFields : List Decode.FieldCheck :=
  [ Decode.field "id" Decode.text,
    Decode.field "workflow_name" Decode.text,
    Decode.field "params" (Decode.table Decode.any),
    Decode.field "status" RunStatus.decode,
    Decode.field "steps" (Decode.list StepResult.decode),
    Decode.spare "abort" (Decode.option AbortReason.decode),
    Decode.field "started_at" Instant.decode,
    Decode.spare "finished_at" (Decode.option Instant.decode) ]

def decode : Decoder RunRecord := fun v => do
  let fs ← Decode.record "WorkflowRun" knownFields v
  return {
    id := ← Decode.required "id" Decode.text fs
    workflow := ← Decode.required "workflow_name" Decode.text fs
    params := ← Decode.required "params" (Decode.table Decode.any) fs
    status := ← Decode.required "status" RunStatus.decode fs
    steps := ← Decode.required "steps" (Decode.list StepResult.decode) fs
    abort := ← Decode.optional "abort" AbortReason.decode fs
    startedAt := ← Decode.required "started_at" Instant.decode fs
    finishedAt := ← Decode.optional "finished_at" Instant.decode fs }

end RunRecord
end Runbook
