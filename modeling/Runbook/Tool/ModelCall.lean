import Runbook.Model.Basic
import Runbook.Template.Resolve
import Runbook.Tool.Basic

/-!
# The model call

The tool sends one prompt to a model provider. The key is looked up on every call; without a key
the answer is simulated and says so, so that a workflow can be tried offline.
-/

set_option autoImplicit false

namespace Runbook.Tool

namespace ModelCall

def defaultMaxTokens : Nat := 1024

/-- The default temperature, 0.7. -/
def defaultTemperature : Float32 := Float32.ofScientific 7 true 1

/-- How much of the prompt a simulated answer repeats. -/
def previewChars : Nat := 50

def promptOf (inputs : Fields Json) : Except ToolError String :=
  match Fields.get? "prompt" inputs with
  | some (.str s) =>
      if Text.allBlank s then .error (.validation "missing required input 'prompt'") else .ok s
  | some .null => .error (.validation "missing required input 'prompt'")
  | none => .error (.validation "missing required input 'prompt'")
  | some v => .ok v.display

/-- The instructions, if there are any. -/
def systemOf (inputs : Fields Json) : Option String :=
  match Fields.get? "system" inputs with
  | none => none
  | some .null => none
  | some v => if v.display.isEmpty then none else some v.display

def maxTokensOf (inputs : Fields Json) : Except ToolError Nat :=
  match Fields.get? "max_tokens" inputs with
  | none => .ok defaultMaxTokens
  | some .null => .ok defaultMaxTokens
  | some v =>
      match v.nat? with
      | some n =>
          if 0 < n ∧ n < Nat.pow 2 32 then .ok n
          else .error (.validation "'max_tokens' must be a positive integer")
      | none => .error (.validation "'max_tokens' must be a positive integer")

def temperatureOf (inputs : Fields Json) : Except ToolError Float32 :=
  match Fields.get? "temperature" inputs with
  | none => .ok defaultTemperature
  | some .null => .ok defaultTemperature
  | some (.num n) =>
      let t := n.toFloat
      if 0.0 ≤ t ∧ t ≤ 2.0 then .ok t.toFloat32
      else .error (.validation "'temperature' must be between 0 and 2")
  | some _ => .error (.validation "'temperature' must be between 0 and 2")

/-- The provider and the request that the inputs describe. -/
def requestOf (inputs : Fields Json) : Except ToolError (Provider × Model.Request) := do
  let name ← requiredText inputs "provider"
  let provider ← (Provider.parse name).mapError fun e => .validation e.message
  let model ← requiredText inputs "model"
  let prompt ← promptOf inputs
  return (provider,
    { model, prompt, system := systemOf inputs, maxTokens := ← maxTokensOf inputs
      temperature := ← temperatureOf inputs })

/-- What is answered without a key. -/
def simulated (p : Provider) (r : Model.Request) : ToolOutput :=
  let preview := String.ofList (r.prompt.toList.take previewChars)
  { output := s!"[SIMULATED {p.name}/{r.model}] Response to: {preview}..."
    metadata := [("provider", .str p.name), ("model", .str r.model), ("simulated", .bool true)] }

/-- The output for a response. No time is measured here: `execution_time_ms` is always 0. -/
def answered (p : Provider) (r : Model.Response) : ToolOutput :=
  { output := r.content
    metadata := [("provider", .str p.name), ("model", .str r.model), ("simulated", .bool false),
      ("input_tokens", Json.nat r.usage.inputTokens),
      ("output_tokens", Json.nat r.usage.outputTokens),
      ("stop_reason", Json.ofText? r.stopReason), ("execution_time_ms", Json.nat 0)] }

/-- How a provider answers a request. -/
structure Reply where
  notes : List Json := []
  delay : Option Nat := none
  result : Except Model.Error Model.Response

/-- A client of a provider, or the reason why there is none. -/
structure Client where
  notes : List Json := []
  send : Except Model.Error (Model.Request → Reply)

end ModelCall

open ModelCall in
/-- The tool, given the keys by their names and how to reach a provider with a key. -/
def modelCall (key? : String → Option String) (connect : Provider → String → Client) : Tool where
  name := "model_call"
  description := "Send a prompt to an LLM provider and return the completion"
  check inputs := Check.ofExcept (requestOf inputs)
  body := .alone fun inputs =>
    match requestOf inputs with
    | .error e => { result := .error e }
    | .ok (provider, request) =>
        match key? provider.keyName with
        | none => { result := .output (simulated provider request) }
        | some key =>
            let client := connect provider key
            match client.send with
            | .error e => { began := client.notes, result := .error (.execution e.message) }
            | .ok send =>
                let reply := send request
                let result := match reply.result with
                  | .ok r => .output (answered provider r)
                  | .error e => .error (.execution s!"{provider.name} call failed: {e.message}")
                { began := client.notes ++ reply.notes, delay := reply.delay, result }

end Runbook.Tool
