/-!
# Verbosity

How much the program tells of its work. Asking for quiet wins over asking for more.
-/

namespace Runbook

inductive Verbosity where
  | error
  | warn
  | info
  | debug
  | trace
  deriving DecidableEq, Repr, Inhabited

namespace Verbosity

def name : Verbosity → String
  | .error => "error"
  | .warn => "warn"
  | .info => "info"
  | .debug => "debug"
  | .trace => "trace"

/-- The verbosity for a number of requests for more. -/
def ofCount (quiet : Bool) (count : Nat) : Verbosity :=
  match quiet, count with
  | true, _ => .error
  | false, 0 => .warn
  | false, 1 => .info
  | false, 2 => .debug
  | false, _ => .trace

end Verbosity
end Runbook
