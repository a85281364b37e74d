import Runbook.Rehearsal.Keeper
import Runbook.Secret.Chain
import Runbook.Text.Case
import Runbook.Tool.Echo
import Runbook.Tool.FanOut
import Runbook.Tool.ModelCall
import Runbook.Tool.Registry

/-!
# Tools that follow a script

For a rehearsal, a tool does what its inputs say: it refuses them, waits, fails, panics, or gives
an output. A model provider answers as a script says. Both note what they are asked to do.
-/

set_option autoImplicit false

namespace Runbook.Rehearsal

/-! ## Tools -/

/-- How the work that a script describes ends. -/
def scriptedEnd (script : Json) : Tool.WorkEnd :=
  if flag script "panic" then .panics
  else if flag script "cancelled" then .error .cancelled
  else
    match field script "fail" with
    | .bool true => .error (.execution "scripted failure")
    | .str m => .error (.execution m)
    | _ => .output { output := (field script "text").display, metadata := table script "meta" }

def scriptedWork (name : String) (inputs : Fields Json) : Tool.Work :=
  let script := Json.obj inputs
  let delay := nat? script "delay_ms"
  { began := [.obj [("tool", .str name), ("inputs", .str script.compress)]]
    delay
    ended := (delay.map fun ms => Json.obj [("tool", .str name), ("done", Json.nat ms)]).toList
    result := scriptedEnd script }

/-- A tool that does what its inputs say. -/
def scriptedTool (name : String) : Tool where
  name
  check inputs :=
    if flag (.obj inputs) "panic_in_validate" then .panics
    else if flag (.obj inputs) "reject" then .rejected (.validation "rejected")
    else .accepted
  body := .alone (scriptedWork name)

/-! ## Model providers -/

def modelErrorOf (script : Json) : Model.Error :=
  let message := str script "message"
  match str? script "kind" with
  | some "provider" => .provider message
  | some "deserialization" => .deserialization message
  | some "rate_limited" => .rateLimited (nat? script "retry_after_ms")
  | some "overloaded" => .overloaded message
  | some "auth" => .authentication
  | _ => .invalidRequest message

/-- The error under a name, if there is one. -/
def modelError? (script : Json) (key : String) : Option Model.Error :=
  match field script key with
  | .null => none
  | e => some (modelErrorOf e)

/-- The answer that a script gives to a request: its own, or the prompt in capitals. -/
def scriptedReply (script : Json) (r : Model.Request) : Tool.ModelCall.Reply :=
  let echo : Model.Response :=
    { content := Text.upper r.prompt, model := r.model, stopReason := none, usage := {} }
  { notes := [.obj [("llm", .str r.text)]]
    delay := some (nat script "delay_ms")
    result := match modelError? script "error" with
      | some e => .error e
      | none => .ok (((Model.Response.decode (field script "response")).toOption).getD echo) }

/-- A client of a model provider that follows a script. -/
def scriptedClient (script : Json) (p : Provider) (key : String) : Tool.ModelCall.Client :=
  { notes := [.obj [("build", .str p.name), ("key", .str key)]]
    send := match modelError? script "build_error" with
      | some e => .error e
      | none => .ok (scriptedReply script) }

/-! ## Registries -/

/-- The tool of a name: a real one, or one that does what its inputs say. -/
def toolOf (keepers : List Keeper) (model : Json) (name : String) : Tool :=
  if name = Tool.echo.name then Tool.echo
  else if name = FanOut.tool.name then FanOut.tool
  else if name = FanOut.defaultTool then
    Tool.modelCall (fun key => Secret.Chain.get? key keepers) (scriptedClient model)
  else scriptedTool name

/-- A registry of the tools of the given names, with timeouts in milliseconds. -/
def registry (c : Option Config) (names : List String) (timeouts : Fields Nat)
    (keepers : List Keeper) (model : Json) : Registry :=
  let empty : Registry := match c with
    | some c => .ofConfig c
    | none => {}
  let r := names.foldl (fun r name => r.register (toolOf keepers model name)) empty
  timeouts.foldl (fun r e => r.setTimeout e.1 e.2) r

end Runbook.Rehearsal
