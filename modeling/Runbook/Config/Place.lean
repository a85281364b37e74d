import Runbook.Secret.Environment
import Runbook.Text.Cut

/-!
# The place of the data directory

The data directory is the one that the environment names, else one in the home directory, else
one in the current directory.
-/

set_option autoImplicit false

namespace Runbook.Config

/-- The variable that names the data directory. -/
def placeVariable : String := "STEPWISE_DATA_DIR"

/-- The name of the data directory where none is named. -/
def placeName : String := ".stepwise"

/-- The data directory. -/
def dataDirectory (env : Environment) : String :=
  match env.get? placeVariable, env.get? "HOME" with
  | some dir, _ => dir
  | none, none => placeName
  | none, some home =>
      if home.isEmpty then placeName
      else if Text.endsWith "/" home then home ++ placeName
      else home ++ "/" ++ placeName

end Runbook.Config
