import Runbook.Workflow.Basic

/-!
# Workflows as JSON

Encoding writes the fields in declared order and leaves out what is empty: no description, no
tool, no inputs, no needs, no gate, no timeout. The failure policy is always written. Decoding
accepts the encoded form, any spelling of the parameters, and a workflow without a name, which has
the empty name.
-/

set_option autoImplicit false

namespace Runbook

namespace Gate

def encode (g : Gate) : Json := .obj (Encode.optional "prompt" (g.prompt.map .str))

def decode : Decoder Gate := fun v => do
  let fs ← Decode.record "GateSpec" [Decode.spare "prompt" (Decode.option Decode.text)] v
  return ⟨← Decode.optional "prompt" Decode.text fs⟩

end Gate

namespace Need

/-- The table of a step's needs. -/
def encodeList (needs : List Need) : Json :=
  .obj (Encode.field "needs" (.arr (needs.map fun n => .str n.display)))

def decodeList : Decoder (List Need) := fun v => do
  let fs ← Decode.record "MemorySpec" [Decode.spare "needs" (Decode.list decode)] v
  Decode.withDefault "needs" (Decode.list decode) [] fs

end Need

namespace Template

def decode : Decoder Template := fun v => .ok (read v)

end Template

namespace Step

def encode (s : Step) : Json :=
  .obj (Encode.field "name" (.str s.name) ++
    Encode.optional "tool" (s.tool.map .str) ++
    Encode.when (!s.inputs.isEmpty) "inputs" (.obj (Template.toFields s.inputs)) ++
    Encode.when (!s.needs.isEmpty) "memory" (Need.encodeList s.needs) ++
    Encode.optional "gate" (s.gate.map Gate.encode) ++
    Encode.field "on_failure" (.str s.onFailure.display) ++
    Encode.optional "timeout_secs" (s.timeoutSecs.map Json.nat))

def knownFields : List Decode.FieldCheck :=
  [ Decode.field "name" Decode.text,
    Decode.spare "tool" (Decode.option Decode.text),
    Decode.spare "inputs" (Decode.table Template.decode),
    Decode.spare "memory" Need.decodeList,
    Decode.spare "gate" (Decode.option Gate.decode),
    Decode.spare "on_failure" OnFailure.decode,
    Decode.spare "timeout_secs" (Decode.option Decode.word64) ]

def decode : Decoder Step := fun v => do
  let fs ← Decode.record "StepDefinition" knownFields v
  return {
    name := ← Decode.required "name" Decode.text fs
    tool := ← Decode.optional "tool" Decode.text fs
    inputs := ← Decode.withDefault "inputs" (Decode.table Template.decode) [] fs
    needs := ← Decode.withDefault "memory" Need.decodeList [] fs
    gate := ← Decode.optional "gate" Gate.decode fs
    onFailure := ← Decode.withDefault "on_failure" OnFailure.decode .abortChain fs
    timeoutSecs := ← Decode.optional "timeout_secs" Decode.word64 fs }

end Step

namespace Workflow

def encode (w : Workflow) : Json :=
  .obj (Encode.field "name" (.str w.name) ++
    Encode.optional "description" (w.description.map .str) ++
    Encode.field "params" (.arr (w.params.map Param.encode)) ++
    Encode.field "steps" (.arr (w.steps.map Step.encode)))

def knownFields : List Decode.FieldCheck :=
  [ Decode.spare "name" Decode.text,
    Decode.spare "description" (Decode.option Decode.text),
    Decode.spare "params" Param.decodeList,
    Decode.field "steps" (Decode.list Step.decode) ]

def decode : Decoder Workflow := fun v => do
  let fs ← Decode.record "WorkflowDefinition" knownFields v
  return {
    name := ← Decode.withDefault "name" Decode.text "" fs
    description := ← Decode.optional "description" Decode.text fs
    params := ← Decode.withDefault "params" Param.decodeList [] fs
    steps := ← Decode.required "steps" (Decode.list Step.decode) fs }

/-- What a listing shows of a workflow. -/
def summary (w : Workflow) : Json :=
  .obj (Encode.field "name" (.str w.name) ++
    Encode.optional "description" (w.description.map .str) ++
    Encode.field "params" (.arr (w.params.map Param.encode)) ++
    Encode.field "step_count" (Json.nat w.steps.length) ++
    Encode.field "step_names" (.arr (w.stepNames.map .str)))

end Workflow
end Runbook
