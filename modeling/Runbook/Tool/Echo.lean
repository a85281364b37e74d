import Runbook.Template.Resolve
import Runbook.Tool.Basic

/-!
# The echo tool

Its output is the text of its input `text`, or of its first input; its metadata are the inputs.
-/

set_option autoImplicit false

namespace Runbook.Tool

/-- The text that is given back. -/
def echoed (inputs : Fields Json) : String :=
  match Fields.get? "text" inputs, inputs with
  | some v, _ => v.display
  | none, e :: _ => e.2.display
  | none, [] => ""

def echo : Tool where
  name := "echo"
  description := "Return the `text` input (or the first input) as the step output"
  check inputs :=
    if inputs.isEmpty then .rejected (.validation "echo needs at least one input") else .accepted
  body := .alone fun inputs => { result := .output { output := echoed inputs, metadata := inputs } }

end Runbook.Tool
