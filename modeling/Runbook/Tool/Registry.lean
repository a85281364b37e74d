import Runbook.Config
import Runbook.Tool.Basic

/-!
# The registry of tools

Tools are found by name. A tool may have a timeout of its own; others have the default one, if
there is one. Times are in milliseconds. The registry also sets the ceiling on the workers of a
fan-out, which is never zero.
-/

set_option autoImplicit false

namespace Runbook

structure Registry where
  tools : Fields Tool := []
  timeouts : Fields Nat := []
  defaultTimeout : Option Nat := none
  maxFanOut : Nat := ({} : Config).maxFanOutWorkers

namespace Registry

/-- No tools, with the timeouts and the ceiling of a configuration. -/
def ofConfig (c : Config) : Registry :=
  { timeouts := c.toolTimeouts.map fun e => (e.1, e.2 * 1000)
    defaultTimeout := c.defaultToolTimeoutSecs.map (· * 1000)
    maxFanOut := max 1 c.maxFanOutWorkers }

/-- Adds a tool under its name, in place of another one of that name. -/
def register (r : Registry) (t : Tool) : Registry :=
  { r with tools := Fields.put t.name t r.tools }

def setTimeout (r : Registry) (tool : String) (ms : Nat) : Registry :=
  { r with timeouts := Fields.put tool ms r.timeouts }

def tool? (r : Registry) (name : String) : Option Tool := Fields.get? name r.tools

def contains (r : Registry) (name : String) : Bool := (r.tool? name).isSome

/-- The names of all tools, in order. -/
def names (r : Registry) : List String := Fields.names (Fields.sorted r.tools)

/-- The timeout of a tool: its own, else the default. -/
def timeoutFor (r : Registry) (tool : String) : Option Nat :=
  (Fields.get? tool r.timeouts).or r.defaultTimeout

end Registry
end Runbook
