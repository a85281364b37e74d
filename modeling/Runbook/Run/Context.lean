import Runbook.Run.Outcome
import Runbook.Template.Scope
import Runbook.Text.Cut

/-!
# What later steps see

A run shows each recorded step to the later ones under `steps`: its status, and its output or its
error. Only a success has an output, so a reference to the output of any other step resolves to
nothing. A long output is cut to a number of bytes, never inside a character, and says how many
were dropped.
-/

set_option autoImplicit false

namespace Runbook

namespace Text

/-- The last place up to a number of bytes at which a character begins or the text ends. The search
goes back byte by byte, at the latest to the place in front of the text. -/
def boundaryUpTo (s : String) : (place : Nat) → s.Pos
  | 0 => s.startPos
  | place + 1 =>
      if h : String.Pos.Raw.IsValid s ⟨place + 1⟩ then ⟨⟨place + 1⟩, h⟩ else boundaryUpTo s place

/-- Cut to at most `max` bytes, with a note of how many bytes were dropped. -/
def truncated (max : Nat) (s : String) : String :=
  if s.utf8ByteSize ≤ max then s
  else
    let cut := boundaryUpTo s max
    let dropped := s.utf8ByteSize - cut.offset.byteIdx
    (s.sliceTo cut).copy ++ "\n[truncated " ++ toString dropped ++ " bytes]"

end Text

structure RunContext where
  params : Fields Json
  /-- The entries of the recorded steps. -/
  steps : Fields Json := []
  maxOutputBytes : Nat

namespace RunContext

/-- What a recorded step shows. -/
def entry (maxOutputBytes : Nat) (r : StepResult) : Json :=
  match r.status, r.output with
  | .success, some o =>
      .obj [("status", .str r.status.display),
        ("output", .str (Text.truncated maxOutputBytes o.output)),
        ("outputs", .arr (o.outputs.map QueryResult.encode)), ("metadata", .obj o.metadata)]
  | _, _ =>
      .obj [("status", .str r.status.display),
        ("error", Json.ofOption (r.error.map Failure.encode))]

/-- Shows a step to the later ones. -/
def record (c : RunContext) (r : StepResult) : RunContext :=
  { c with steps := Fields.put r.step (entry c.maxOutputBytes r) c.steps }

/-- What the placeholders of a step refer to, given its memory. -/
def scope (c : RunContext) (memory : Fields Json) : Scope :=
  { params := some c.params, steps := some c.steps, memory := some memory }

end RunContext
end Runbook
