import Runbook.Config
import Runbook.FileTree
import Runbook.Toml.Document

/-!
# The configuration file

The configuration is read from a file in the data directory. A file that is missing or cannot be
read as a configuration counts as one without settings, and a fan-out has at least one worker.
-/

set_option autoImplicit false

namespace Runbook.Config

/-- The name of the file in the data directory. -/
def fileName : String := "config.toml"

/-- A name may be written as a table with the name as its only key and nothing under it. -/
def plainName (v : Json) : Json :=
  match v with
  | .obj [(name, .obj [])] => .str name
  | .obj [(name, .arr [])] => .str name
  | v => v

/-- The configuration that a text holds. -/
def ofText? (s : String) : Option Config := do
  let fields ← (← Toml.parse? s).obj?
  let fields := fields.map fun e => if e.1 = "missing_path" then (e.1, plainName e.2) else e
  let c ← (decode (.obj fields)).toOption
  return { c with maxFanOutWorkers := max 1 c.maxFanOutWorkers }

/-- The configuration in a data directory. -/
def load (dir : FilePath) (tree : FileTree) : Config :=
  (((tree.readText (dir ++ [fileName])).toOption).bind ofText?).getD {}

end Runbook.Config
