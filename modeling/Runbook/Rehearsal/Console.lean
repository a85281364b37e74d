import Runbook.Console.Perform
import Runbook.Rehearsal.Redaction
import Runbook.Rehearsal.Scene

/-!
# Command lines that follow a script

A script lists files, variables of the environment and command lines. The command lines are
carried out one after another in a working directory beside the data directory, on a host that
keeps its files and its memory, and that has neither a terminal nor a network. A command line may
name the runs that earlier ones have shown.
-/

set_option autoImplicit false

namespace Runbook.Rehearsal

open Console

/-! ## The scene -/

/-- The directory around everything. -/
def sceneName : String := "<dir>"

/-- The environment of a command without the variables of a script. -/
def plainEnvironment : Fields String :=
  [ (Config.placeVariable, s!"/{sceneName}/data"), ("HOME", s!"/{sceneName}/home"),
    ("RUST_LOG", "off") ]

/-- The host that a script describes. -/
def hostOf (now : Instant) (script : Json) : Host :=
  let files := treeOf (table script "files")
  let files := ((files.makeDirectory ["work"]).toOption).getD files
  let entries := (environmentOf (field script "env")).entries.foldl
    (fun acc e => Fields.put e.1 e.2 acc) plainEnvironment
  { tree := .directory [(sceneName, files)]
    current := [sceneName, "work"]
    environment := { entries }
    clock := now
    random := numberedBytes }

/-! ## Calls -/

/-- The run that a report shows. -/
def shownRun? (output : String) : Option RunId :=
  match Json.parse? output with
  | some report => str? report "id"
  | none => (Text.split '\n' output).findSome? (Text.after? "  run id: ")

/-- A word with the names of runs in place of their marks. -/
def fillIn (runs : List RunId) (word : String) : String :=
  runs.zipIdx.foldl (fun w (id, i) => w.replace s!"<run{i}>" id) word

/-- Milliseconds between two calls. -/
def pause : Nat := 5

/-- Carries out command lines one after another; `runs` are those that have been shown. -/
def calls (h : Host) (runs : List RunId) : List (List String) → List Outcome
  | [] => []
  | words :: rest =>
      let (outcome, h) := h.perform (words.map (fillIn runs))
      let later := { h with clock := ⟨h.clock.nanos + pause * 1000000⟩ }
      outcome :: calls later (runs ++ (shownRun? outcome.output).toList) rest

/-- The outcomes of the command lines of a script. -/
def callsOf (now : Instant) (script : Json) : List Outcome :=
  calls (hostOf now script) []
    ((items script "calls").map fun words => ((words.arr?).getD []).filterMap Json.str?)

/-! ## Redaction -/

/-- The number of milliseconds in a cell of a table is replaced; the cell keeps its width. -/
def cellRule (edge : String) : Rule := fun cs =>
  match Text.afterChars? edge.toList cs with
  | none => none
  | some rest =>
      let digits := rest.takeWhile Text.isDigit
      match digits, Text.afterChars? " ms ".toList (rest.drop digits.length) with
      | _ :: more, some rest => some ((edge ++ "# ms ").toList ++ more.map fun _ => ' ', rest)
      | _, _ => none

/-- What the program says itself of a text that is not a list of workflows. -/
def ownWords : List String :=
  ["workflow '", "'workflows' must be a map", "expected a workflow definition",
    "expected one workflow"]

/-- What else is said of such a text is replaced. -/
def readingRule : Rule := fun cs =>
  let head := "parse error: "
  match Text.afterChars? head.toList cs with
  | none => none
  | some rest =>
      if ownWords.any fun w => (Text.afterChars? w.toList rest).isSome then none
      else some ((head ++ "<yaml>").toList, rest.dropWhile (· ≠ '\n'))

/-- The rule for what a person reads. -/
def consoleRule : Rule :=
  .firstOf
    [ .time,
      .shape "dddd-dd-dd dd:dd:dd" "YYYY-MM-DD hh:mm:ss",
      .shape "dddd-dd-dd dd:dd" "YYYY-MM-DD hh:mm",
      .shape tailShape "_YYYYMMDD_hhmmss_xxxxxxxx",
      .number "(" "#" " ms)",
      cellRule "┆ ", cellRule "│ ",
      .number "execution_time_ms\":" "0" "", .number "execution_time_ms\": " "0" "",
      .number "execution_time_ms\\\":" "0" "",
      readingRule,
      .exactly ("/" ++ sceneName) sceneName ]

def redactConsole (s : String) : String := redactAll consoleRule s

end Runbook.Rehearsal
