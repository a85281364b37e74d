import Runbook.Json.Reader
import Runbook.Memory.Store

/-!
# What a history tells

The step results of a run are read from its records. A later record of a step replaces the
earlier one in place; what cannot be read is passed over.
-/

set_option autoImplicit false

namespace Runbook.Memory

/-- The step result that a slice records. -/
def recordedResult? (s : Slice) : Option StepResult :=
  if s.classification = .stepResult then
    match (Json.parse? s.content).map StepResult.decode with
    | some (.ok r) => some r
    | _ => none
  else none

/-- Replaces the result of the same step, or goes to the end. -/
def putResult (r : StepResult) : List StepResult → List StepResult
  | [] => [r]
  | x :: rest => if x.step = r.step then r :: rest else x :: putResult r rest

/-- The step results in a history, oldest first. -/
def stepResults (history : List Slice) : List StepResult :=
  (history.filterMap recordedResult?).foldl (fun acc r => putResult r acc) []

/-- What the slices of a run add up to. -/
structure RunDigest where
  run : RunId
  totalSlices : Nat
  byClassification : Fields Nat
  /-- In the order of their first records. -/
  stepsRecorded : List String
  deriving DecidableEq, Repr

namespace RunDigest

def ofHistory (run : RunId) (history : List Slice) : RunDigest :=
  { run
    totalSlices := history.length
    byClassification := tally (history.map (·.classification.name))
    stepsRecorded :=
      ((history.filter (·.classification = .stepResult)).map (·.step)).eraseDups }

def encode (d : RunDigest) : Json :=
  .obj [("run_id", .str d.run), ("total_slices", Json.nat d.totalSlices),
    ("by_classification", .obj (d.byClassification.map fun e => (e.1, Json.nat e.2))),
    ("steps_recorded", .arr (d.stepsRecorded.map .str))]

end RunDigest
end Runbook.Memory
