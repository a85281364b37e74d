import Runbook.Json.Decode
import Runbook.Model.Provider
import Runbook.Text.Cut

/-!
# Requests to language models

A request is a single prompt with optional instructions, a token limit and a temperature. A
response carries the text, the model that wrote it, why it stopped and what it used. A call can
fail in six ways.

The temperature is a 32-bit number and is written with the digits that identify it as one, so the
text of a request is put together from the texts of its fields.
-/

set_option autoImplicit false

namespace Runbook

/-- The text of a table, from its names and the texts of its values. -/
def Json.tableText (fields : List (String × String)) : String :=
  "\x7b" ++ Text.join "," (fields.map fun e => Json.quote e.1 ++ ":" ++ e.2) ++ "\x7d"

namespace Model

structure Request where
  model : String
  prompt : String
  system : Option String
  maxTokens : Nat
  temperature : Float32

/-- The text of a 32-bit number; null if it is not finite. -/
def singleText (x : Float32) : String := if x.isFinite then Decimal.render32 x else "null"

namespace Request

def text (r : Request) : String :=
  Json.tableText ([("model", Json.quote r.model), ("prompt", Json.quote r.prompt)] ++
    (r.system.map fun s => [("system", Json.quote s)]).getD [] ++
    [("max_tokens", toString r.maxTokens), ("temperature", singleText r.temperature)])

/-- A number as a 32-bit one. -/
def decodeSingle : Decoder Float32
  | .num (.int n) =>
      .ok (if 0 ≤ n then n.toNat.toUInt64.toFloat32 else -(n.natAbs.toUInt64.toFloat32))
  | .num (.float x) => .ok x.toFloat32
  | v => .error (.wrongType (Decode.kindOf v) "f32")

def knownFields : List Decode.FieldCheck :=
  [ Decode.field "model" Decode.text,
    Decode.field "prompt" Decode.text,
    Decode.field "system" (Decode.option Decode.text),
    Decode.field "max_tokens" Decode.word32,
    Decode.field "temperature" decodeSingle ]

def decode : Decoder Request := fun v => do
  let fs ← Decode.record "CompletionRequest" knownFields v
  return {
    model := ← Decode.required "model" Decode.text fs
    prompt := ← Decode.required "prompt" Decode.text fs
    system := ← Decode.optional "system" Decode.text fs
    maxTokens := ← Decode.required "max_tokens" Decode.word32 fs
    temperature := ← Decode.required "temperature" decodeSingle fs }

end Request

structure Usage where
  inputTokens : Nat := 0
  outputTokens : Nat := 0
  deriving DecidableEq, Repr, Inhabited

namespace Usage

def encode (u : Usage) : Json :=
  .obj [("input_tokens", Json.nat u.inputTokens), ("output_tokens", Json.nat u.outputTokens)]

def decode : Decoder Usage := fun v => do
  let fs ← Decode.record "Usage"
    [Decode.field "input_tokens" Decode.word32, Decode.field "output_tokens" Decode.word32] v
  return {
    inputTokens := ← Decode.required "input_tokens" Decode.word32 fs
    outputTokens := ← Decode.required "output_tokens" Decode.word32 fs }

end Usage

structure Response where
  content : String
  model : String
  stopReason : Option String
  usage : Usage
  deriving DecidableEq, Repr, Inhabited

namespace Response

def encode (r : Response) : Json :=
  .obj ([("content", .str r.content), ("model", .str r.model)] ++
    Encode.optional "stop_reason" (r.stopReason.map .str) ++
    [("usage", r.usage.encode)])

def knownFields : List Decode.FieldCheck :=
  [ Decode.field "content" Decode.text,
    Decode.field "model" Decode.text,
    Decode.field "stop_reason" (Decode.option Decode.text),
    Decode.field "usage" Usage.decode ]

def decode : Decoder Response := fun v => do
  let fs ← Decode.record "CompletionResponse" knownFields v
  return {
    content := ← Decode.required "content" Decode.text fs
    model := ← Decode.required "model" Decode.text fs
    stopReason := ← Decode.optional "stop_reason" Decode.text fs
    usage := ← Decode.required "usage" Usage.decode fs }

end Response

inductive Error where
  | provider (message : String)
  | deserialization (message : String)
  | rateLimited (retryAfterMs : Option Nat)
  | overloaded (message : String)
  | authentication
  | invalidRequest (message : String)
  deriving DecidableEq, Repr, Inhabited

namespace Error

def message : Error → String
  | .provider m => s!"provider error: {m}"
  | .deserialization m => s!"deserialization error: {m}"
  | .rateLimited none => "rate limited (retry after Nonems)"
  | .rateLimited (some ms) => s!"rate limited (retry after Some({ms})ms)"
  | .overloaded m => s!"provider overloaded: {m}"
  | .authentication => "authentication failed"
  | .invalidRequest m => s!"invalid request: {m}"

end Error
end Model

namespace Provider

/-- Reads the name of a provider. -/
def parse (s : String) : Except Model.Error Provider :=
  match ofName? (normalName s) with
  | some p => .ok p
  | none => .error (.invalidRequest s!"unsupported provider '{normalName s}'")

end Provider
end Runbook
