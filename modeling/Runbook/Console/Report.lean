import Runbook.Console.Table
import Runbook.Engine.Basic
import Runbook.Json.Printer
import Runbook.Secret.Basic

/-!
# Reports

What a command has found or done is reported in lines of prose and tables, indented by two
columns. Long texts are shown by the beginning of their first line.
-/

set_option autoImplicit false

namespace Runbook.Console

namespace Report

/-- How many characters of a long text are shown. -/
def previewChars : Nat := 60

/-- The first line of a text, without the carriage return at its end. -/
def firstLine (s : String) : String :=
  let line := (Text.split '\n' s).headD ""
  if Text.contains "\n" s then (Text.before? "\r" line).getD line else line

/-- The beginning of a text, and an ellipsis if that is not all. -/
def preview (s : String) : String :=
  let out := String.ofList ((firstLine s).toList.take previewChars)
  if out.utf8ByteSize < s.utf8ByteSize then out ++ "…" else out

/-- A number of things, of which one is named without an `s` at the end. -/
def counted (n : Nat) (thing : String) : String :=
  s!"{n} {thing}" ++ if n = 1 then "" else "s"

/-- A note between blank lines. -/
def note (s : String) : List String := ["", s!"  i {s}", ""]

/-! ## Workflows -/

def defaultText : Json → String
  | .str s => s
  | v => preview v.compress

def paramText (p : Param) : String :=
  match p.default with
  | some v => s!"{p.name}={defaultText v}"
  | none => p.name ++ "*"

def workflowRow (w : Workflow) : List String :=
  [ w.name, w.description.getD "-", Text.join ", " (w.params.map paramText),
    s!"{w.steps.length}: " ++ Text.join " > " w.stepNames ]

def workflows (ws : List Workflow) : List String :=
  if ws.isEmpty then note "No workflows found. Create workflows.yaml or pass --file."
  else
    let table : Table :=
      { header := ["Name", "Description", "Params", "Steps"], rows := ws.map workflowRow }
    [""] ++ table.lines ++ ["", "  * required parameter", ""]

/-- So many workflows from a place are in order. -/
def valid (n : Nat) (place : String) : List String :=
  ["  ✓ " ++ counted n "workflow" ++ s!" valid ({place})"]

/-! ## Runs -/

def statusMark : Status → String
  | .success => "✓"
  | .failed => "✗"
  | .skipped => "-"

/-- How long a step took, if that is known. -/
def durationText (r : StepResult) : Option String := r.duration?.map fun ms => s!"{ms} ms"

def stepLine (r : StepResult) : String :=
  let took := ((durationText r).map fun d => s!" ({d})").getD ""
  let rest := match r.output, r.error with
    | _, some e => s!"{took}  {e.display}"
    | some o, none => s!"{took}  {preview o.output}"
    | none, none => ""
  s!"  {statusMark r.status} {r.step}{rest}"

/-- How a run ended. -/
def endLine (r : RunRecord) : String :=
  match r.status, r.abort with
  | .completed, _ =>
      if r.isPartial then s!"  ~ {r.workflow} completed with failed steps"
      else s!"  ✓ {r.workflow} completed"
  | _, some a => s!"  ✗ {r.workflow} aborted: {a.display}"
  | status, none => s!"  {r.workflow} {status.display}"

def run (r : RunRecord) : List String :=
  [""] ++ r.steps.map stepLine ++ ["", endLine r, s!"  run id: {r.id}", ""]

def stepRow (r : StepResult) : List String :=
  let detail := match r.error, r.outputText? with
    | some e, _ => e.display
    | none, some s => preview s
    | none, none => ""
  [r.step, r.status.display, (durationText r).getD "", detail]

def sliceRow (s : Slice) : List String :=
  [ toString s.id, s.step, s.classification.name, s.createdAt.dateTimeText " ",
    preview s.content ]

def inspection (i : Engine.Inspection) : List String :=
  let steps : Table :=
    { header := ["Step", "Status", "Duration", "Output / Error"], rows := i.steps.map stepRow }
  let slices : Table :=
    { header := ["Id", "Step", "Class", "Created", "Content"], rows := i.slices.map sliceRow }
  ["", s!"  Run {i.run}", ""] ++ steps.lines ++ [""] ++ slices.lines ++ [""]

/-- Date and time to the minute. -/
def minuteText (t : Instant) : String :=
  String.ofList ((t.dateTimeText " ").toList.reverse.drop 3).reverse

def overviewRow (o : RunOverview) : List String :=
  [o.run, toString o.sliceCount, minuteText o.firstAt, minuteText o.lastAt]

def recentRuns (os : List RunOverview) : List String :=
  if os.isEmpty then note "No recorded runs."
  else
    let table : Table :=
      { header := ["Run ID", "Slices", "Started", "Last activity"], rows := os.map overviewRow }
    [""] ++ table.lines ++ [""]

/-! ## Memory -/

def stats (s : MemoryStats) : List String :=
  let table : Table :=
    { header := ["Classification", "Slices"]
      rows := s.byClassification.map fun e => [e.1, toString e.2] }
  ["", s!"  {s.totalSlices} slices across {s.distinctRuns} runs"] ++
    (if s.byClassification.isEmpty then [] else "" :: table.lines) ++ [""]

def purged (removed days : Nat) : List String :=
  ["  ✓ Removed " ++ counted removed "slice" ++ s!" older than {days} days"]

/-! ## Secrets -/

def secretSet (key masked : String) : List String := [s!"  ✓ Secret '{key}' set ({masked})"]

def secretDeleted (key : String) : List String := [s!"  ✓ Secret '{key}' deleted"]

/-- The entries, each with its masked value. -/
def secrets (entries : List (SecretEntry × String)) : List String :=
  if entries.isEmpty then
    note "No secrets stored. Add one with: stepwise secret set ANTHROPIC_API_KEY"
  else
    let table : Table :=
      { header := ["Key", "Value", "Source"]
        rows := entries.map fun e => [e.1.key, e.2, e.1.source.display] }
    [""] ++ table.lines ++ ["", "  " ++ counted entries.length "secret", ""]

end Report
end Runbook.Console
