import Runbook.Json.Reader
import Runbook.Memory.Recording
import Runbook.Workflow.Need

/-!
# What a step remembers

Each need of a step is met by the newest slice of its kind in the run. A need whose slice is not
there binds nothing. Bindings are made in the order of the needs, and a later one replaces an
earlier one of its name. A failed read fails the whole, unless failures are tolerated: then the
need binds nothing.
-/

set_option autoImplicit false

namespace Runbook

namespace Need

/-- Which slices meet the need. -/
def query (run : RunId) : Need → SliceQuery
  | .userPrompt => { run, classification := some .userPrompt }
  | .parameters =>
      { run, step := some Memory.runStartStep, classification := some .parameters }
  | .toolOutput s => { run, step := some s, classification := some .output }
  | .step s => { run, step := some s, classification := some .stepResult }
  | .lastOutput => { run, classification := some .output }
  | .classification tag => { run, classification := some (Classification.ofName tag) }

/-- What a step sees of the recorded result of another. -/
def resultBinding (r : StepResult) (createdAt : Instant) : Json :=
  let o := r.output.getD {}
  .obj [("status", .str r.status.display), ("output", .str o.output),
    ("outputs", .arr (o.outputs.map QueryResult.encode)), ("metadata", .obj o.metadata),
    ("error", Json.ofOption (r.error.map Failure.encode)),
    ("created_at", .str createdAt.offsetText)]

/-- The bindings that a slice gives to the need that it meets. -/
def bindings (need : Need) (s : Slice) : Except StoreError (Fields Json) :=
  match need with
  | .userPrompt => .ok [("user_prompt", .str s.content)]
  | .parameters =>
      match Json.parse? s.content with
      | some (.obj params) => .ok params
      | some v =>
          let cause := DecodeError.wrongType (Decode.kindOf v) "a map"
          .error (.read s!"decode parameters: {cause.message}")
      | none => .error (.read s!"decode parameters: not JSON: {s.content}")
  | .toolOutput name => .ok [(name ++ "_output", .str s.content)]
  | .step name =>
      match (Json.parse? s.content).map StepResult.decode with
      | some (.ok r) => .ok [(name, resultBinding r s.createdAt)]
      | some (.error e) => .error (.read s!"decode step result: {e.message}")
      | none => .error (.read s!"decode step result: not JSON: {s.content}")
  | .lastOutput => .ok [("last_output", .str s.content)]
  | .classification tag => .ok [(tag, .str s.content)]

end Need

namespace Memory

/-- Every failure to find slices is a failure to read. -/
def asReadError : StoreError → StoreError
  | .read m => .read m
  | e => .read e.message

/-- The bindings of a need, given the answer to its query. The query has a limit of one slice, so the
first of an answer is also the last. -/
def bindingsOf (need : Need) (found : Except StoreError (List Slice)) :
    Except StoreError (Fields Json) :=
  match found with
  | .error e => .error (asReadError e)
  | .ok [] => .ok []
  | .ok (s :: _) => need.bindings s

/-- Extends the bindings by those of the needs, in order. -/
def «recall» (tolerant : Bool) (run : RunId) (bound : Fields Json) :
    List Need → StoreDialogue (Except StoreError (Fields Json))
  | [] => .done (.ok bound)
  | need :: rest =>
      .ask (.query { need.query run with limit := some 1 }) fun found =>
        match bindingsOf need found with
        | .ok more => «recall» tolerant run (Fields.extend bound more) rest
        | .error e => if tolerant then «recall» tolerant run bound rest else .done (.error e)

end Memory
end Runbook
