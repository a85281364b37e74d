import Runbook.Run.Outcome
import Runbook.Text.Blank

/-!
# Tools

A tool checks its inputs and then works on them. Most tools work alone: they may wait for a while,
during which they can be stopped, and end with an output, an error or a panic. One tool, the
fan-out, has other tools work for it.

What a tool lets an observer see, a request that it sends for instance, are its notes: those it
makes when the work begins and those it makes after waiting.
-/

set_option autoImplicit false

namespace Runbook

/-- What a tool reports instead of an output. -/
inductive ToolError where
  | validation (message : String)
  | execution (message : String)
  | cancelled
  deriving DecidableEq, Repr, Inhabited

namespace ToolError

def message : ToolError → String
  | .validation m => s!"invalid input: {m}"
  | .execution m => m
  | .cancelled => "cancelled"

/-- The failure that the error is for a step. -/
def failure : ToolError → Failure
  | .validation m => ⟨.toolValidation, m⟩
  | .execution m => ⟨.toolExecution, m⟩
  | .cancelled => ⟨.cancelled, "tool call cancelled"⟩

end ToolError

namespace Tool

/-- The outcome of checking inputs. -/
inductive Check where
  | accepted
  | rejected (e : ToolError)
  | panics

/-- The verdict of a check that does not panic. -/
def Check.ofExcept {α : Type} : Except ToolError α → Check
  | .ok _ => .accepted
  | .error e => .rejected e

inductive WorkEnd where
  | output (o : ToolOutput)
  | error (e : ToolError)
  | panics

def WorkEnd.ofExcept : Except ToolError ToolOutput → WorkEnd
  | .ok o => .output o
  | .error e => .error e

/-- The work of a tool on given inputs. -/
structure Work where
  /-- Notes made when the work begins. -/
  began : List Json := []
  /-- How long the work waits, in milliseconds; without a value it does not wait. -/
  delay : Option Nat := none
  /-- Notes made after waiting. -/
  ended : List Json := []
  result : WorkEnd
  /-- The work stops waiting when its call is told to stop. -/
  heedsStop : Bool := true

inductive Body where
  | alone (work : Fields Json → Work)
  | fanOut

end Tool

structure Tool where
  name : String
  description : String := ""
  check : Fields Json → Tool.Check
  body : Tool.Body

namespace Tool

/-- An input that has to be a text and not blank. -/
def requiredText (inputs : Fields Json) (key : String) : Except ToolError String :=
  match Fields.get? key inputs with
  | some (.str s) =>
      if Text.allBlank s then .error (.validation s!"missing required input '{key}'") else .ok s
  | none => .error (.validation s!"missing required input '{key}'")
  | some v => .error (.validation s!"input '{key}' must be a string, got {v.compress}")

end Tool
end Runbook
