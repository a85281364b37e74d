import Runbook.Text.Cut
import Runbook.Tool.Basic
import Runbook.Workflow.Check

/-!
# The fan-out

The fan-out has several queries answered at the same time. A query names a tool, the model call if
it names none, and carries that tool's inputs. The results are in the order of the queries,
whatever the order in which they finish. With `fail_fast` the first failure ends the whole.
-/

set_option autoImplicit false

namespace Runbook.FanOut

/-- The tool of a query that names none. -/
def defaultTool : String := "model_call"

structure Query where
  index : Nat
  tool : String
  inputs : Fields Json

/-- Splits a query into its tool and that tool's inputs. `prompt_template` is a second spelling of
`prompt`. -/
def Query.ofFields (index : Nat) (fs : Fields Json) : Query :=
  let tool := match Fields.get? "tool" fs with
    | some (.str t) => t
    | _ => defaultTool
  let inputs := Fields.take "tool" fs
  match Fields.has "prompt" inputs, Fields.get? "prompt_template" inputs with
  | false, some template =>
      { index, tool, inputs := Fields.put "prompt" template (Fields.take "prompt_template" inputs) }
  | _, _ => { index, tool, inputs }

/-! ## Checking -/

/-- A query is a table whose tool, if it names one, is not the fan-out. -/
def checkQuery (index : Nat) (v : Json) : Except ToolError Unit :=
  match v with
  | .obj fs =>
      match Fields.get? "tool" fs with
      | none => .ok ()
      | some (.str tool) =>
          if tool = Workflow.fanOutTool then
            .error (.validation s!"query {index} cannot nest '{tool}'")
          else .ok ()
      | some _ => .error (.validation s!"query {index}: 'tool' must be a string")
  | _ => .error (.validation s!"query {index} must be a map")

def checkQueries : (index : Nat) → List Json → Except ToolError Unit
  | _, [] => .ok ()
  | index, v :: vs =>
      match checkQuery index v with
      | .error e => .error e
      | .ok () => checkQueries (index + 1) vs

def checkQueryList (inputs : Fields Json) : Except ToolError Unit :=
  match Fields.get? "queries" inputs with
  | some (.arr []) => .error (.validation "'queries' must not be empty")
  | some (.arr queries) => checkQueries 0 queries
  | some _ => .error (.validation "'queries' must be a list")
  | none => .error (.validation "missing required input 'queries'")

/-- A positive number of workers, if one is given. -/
def checkWorkers (inputs : Fields Json) : Except ToolError Unit :=
  match Fields.get? "max_workers" inputs with
  | none => .ok ()
  | some v =>
      match v.nat? with
      | some (_ + 1) => .ok ()
      | _ => .error (.validation "'max_workers' must be a positive integer")

def checkFailFast (inputs : Fields Json) : Except ToolError Unit :=
  match Fields.get? "fail_fast" inputs with
  | none => .ok ()
  | some (.bool _) => .ok ()
  | some _ => .error (.validation "'fail_fast' must be a boolean")

def check (inputs : Fields Json) : Except ToolError Unit := do
  checkQueryList inputs
  checkWorkers inputs
  checkFailFast inputs

def tool : Tool where
  name := Workflow.fanOutTool
  description := "Run a list of independent tool calls concurrently and collect ordered results"
  check inputs := Tool.Check.ofExcept (check inputs)
  body := .fanOut

/-! ## Planning -/

structure Plan where
  /-- How many queries may be answered at the same time; at least one. -/
  workers : Nat
  failFast : Bool
  queries : List Query

def planQueries : (index : Nat) → List Json → Except ToolError (List Query)
  | _, [] => .ok []
  | index, .obj fs :: vs =>
      match planQueries (index + 1) vs with
      | .error e => .error e
      | .ok qs => .ok (Query.ofFields index fs :: qs)
  | index, v :: _ => .error (.validation s!"query {index} must be a map, got {v.compress}")

/-- The number of workers: as asked for, but at least one and at most the ceiling. -/
def workersOf (ceiling : Nat) (inputs : Fields Json) : Nat :=
  let wanted := (((Fields.get? "max_workers" inputs).bind Json.nat?)).getD ceiling
  min (max 1 wanted) (max 1 ceiling)

/-- What is to be done for the inputs, checked or not. -/
def plan (ceiling : Nat) (inputs : Fields Json) : Except ToolError Plan :=
  match Fields.get? "queries" inputs with
  | some (.arr vs) =>
      match planQueries 0 vs with
      | .error e => .error e
      | .ok queries =>
          .ok { workers := workersOf ceiling inputs
                failFast := (((Fields.get? "fail_fast" inputs).bind Json.bool?)).getD false
                queries }
  | _ => .error (.validation "missing required input 'queries'")

/-! ## Gathering -/

/-- The outcome of a query. -/
abbrev Outcome := Except Failure ToolOutput

def resultOf (q : Query) : Outcome → QueryResult
  | .ok o =>
      { index := q.index, tool := q.tool, status := .success, output := o.output
        metadata := o.metadata, error := none }
  | .error f =>
      { index := q.index, tool := q.tool, status := .failed, output := "", metadata := []
        error := some f }

/-- The result of a query that never finished. -/
def unfinished (index : Nat) : QueryResult :=
  { index, tool := "", status := .failed, output := "", metadata := []
    error := some (ToolError.execution "sub-invocation did not complete").failure }

/-- The results in the order of the queries, given those that arrived, in any order. -/
def ordered (total : Nat) (arrived : List QueryResult) : List QueryResult :=
  (List.range total).map fun i => (arrived.find? (·.index = i)).getD (unfinished i)

/-- The output of a fan-out: the outputs of the successful queries, with blank lines between. -/
def assemble (p : Plan) (arrived : List QueryResult) : ToolOutput :=
  let outputs := ordered p.queries.length arrived
  let successes := (outputs.filter (·.status = .success)).map (·.output)
  { output := Text.join "\n\n" successes
    outputs
    metadata := [("query_count", Json.nat p.queries.length),
      ("successful_queries", Json.nat successes.length), ("max_workers", Json.nat p.workers)] }

/-- The error of a fan-out that ends at its first failure. -/
def firstFailure (q : Query) (f : Failure) : ToolError :=
  .execution s!"query {q.index} ({q.tool}) failed: {f.display}"

/-- Queries in progress. A query waits until one of the workers is free, in the order of asking;
what it comes to is finished first and looked at later, in the order of finishing. -/
structure Progress where
  workers : Nat
  waiting : List Nat := []
  /-- The queries that have a worker. -/
  inside : List Nat := []
  finished : List (Query × Outcome) := []
  arrived : List QueryResult := []

namespace Progress

/-- A query asks for a worker. -/
def request (p : Progress) (index : Nat) : Progress :=
  if p.inside.length < p.workers then { p with inside := p.inside ++ [index] }
  else { p with waiting := p.waiting ++ [index] }

/-- A query gives its worker back, which goes to the one that has waited longest. -/
def release (p : Progress) (index : Nat) : Progress :=
  let inside := p.inside.erase index
  match p.waiting with
  | [] => { p with inside }
  | next :: waiting => { p with inside := inside ++ [next], waiting }

/-- The query that the next free worker goes to. -/
def next? (p : Progress) : Option Nat := p.waiting.head?

/-- A query finishes. -/
def finish (p : Progress) (q : Query) (o : Outcome) : Progress :=
  let p := p.release q.index
  { p with finished := p.finished ++ [(q, o)] }

/-- Looks at what has finished; with `failFast` up to the first failure. -/
def look (failFast : Bool) (arrived : List QueryResult) :
    List (Query × Outcome) → Except ToolError (List QueryResult)
  | [] => .ok arrived
  | (q, o) :: rest =>
      match o, failFast with
      | .error f, true => .error (firstFailure q f)
      | o, _ => look failFast (arrived ++ [resultOf q o]) rest

end Progress
end Runbook.FanOut
