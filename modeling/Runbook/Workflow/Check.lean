import Runbook.Template.Pieces
import Runbook.Workflow.Basic
import Runbook.Workflow.Error

/-!
# The rules of a workflow

A workflow has a name and at least one step. Names of parameters and of steps are not blank and do
not repeat. A step has a tool or a gate, and no timeout of zero. Every placeholder in its inputs
and in its own gate prompt refers to a declared parameter, to an earlier step, or to memory; every
need that reads a step reads an earlier one. So no step refers to itself or to a later step.

The first broken rule is reported, in the order of the workflow.
-/

set_option autoImplicit false

namespace Runbook.Workflow

/-- Stops at the first fault. -/
def firstFault {α ε : Type} (check : α → Except ε Unit) : List α → Except ε Unit
  | [] => .ok ()
  | x :: xs =>
      match check x with
      | .error e => .error e
      | .ok () => firstFault check xs

/-- Names so far, for spotting a repeated one. -/
def checkParams (w : String) : (seen : List String) → List Param → Except Fault Unit
  | _, [] => .ok ()
  | seen, p :: ps =>
      if Text.allBlank p.name then .error (.emptyParamName w)
      else if seen.contains p.name then .error (.duplicateParam w p.name)
      else checkParams w (p.name :: seen) ps

/-- What the references of a step may name. -/
structure References where
  params : List String
  earlier : List String
  all : List String

/-- A step may refer to an earlier one only. -/
def checkStepReference (r : References) (step : String) : Except StepReferenceFault Unit :=
  if r.earlier.contains step then .ok ()
  else if r.all.contains step then .error (.runsLater step)
  else .error (.unknown step)

/-- What follows the leading `params.` of a path, however often that is repeated. -/
def afterParams (path : String) : String :=
  String.ofList (Text.dropHeads "params.".toList path.toList)

/-- A parameter is named by the second segment, or by a longer stretch of the path when its own
name has dots. -/
def namesParam (params : List String) (path param : String) : Bool :=
  let rest := afterParams path
  params.contains param ||
    params.any fun p => rest == p || Text.startsWith (p ++ ".") rest

/-- A placeholder refers to a declared parameter, an earlier step or memory. -/
def checkReference (r : References) (path : String) : Except ReferenceFault Unit :=
  match (Text.split '.' path).map Text.trim with
  | "params" :: param :: _ =>
      if namesParam r.params path param then .ok () else .error (.undeclaredParam path param)
  | "steps" :: step :: _ =>
      match checkStepReference r step with
      | .ok () => .ok ()
      | .error e => .error (.badStep path e)
  | "memory" :: _ :: _ => .ok ()
  | _ => .error (.badRoot path)

/-- The texts of a step that may hold placeholders: its inputs, then its own gate prompt. -/
def templatesOf (s : Step) : List String :=
  Template.textsFields s.inputs ++ ((s.gate.bind (·.prompt)).map ([·])).getD []

/-- The paths of all placeholders of a step. -/
def referencesOf (s : Step) : List String := (templatesOf s).flatMap Template.placeholders

/-- A tool has a name, and a step without a tool has a gate. -/
def checkAction (s : Step) : Except StepFault Unit :=
  match s.tool, s.gate with
  | some tool, _ => if Text.allBlank tool then .error .emptyTool else .ok ()
  | none, none => .error .neitherToolNorGate
  | none, some _ => .ok ()

def checkNeed (r : References) (need : Need) : Except StepFault Unit :=
  match need.referencedStep? with
  | none => .ok ()
  | some step =>
      match checkStepReference r step with
      | .ok () => .ok ()
      | .error e => .error (.needStep need e)

/-- The rules of one step that has a name of its own. -/
def checkStep (r : References) (s : Step) : Except StepFault Unit :=
  if r.earlier.contains s.name then .error .duplicateName
  else
    match checkAction s with
    | .error e => .error e
    | .ok () =>
        if s.timeoutSecs = some 0 then .error .zeroTimeout
        else
          match firstFault (checkReference r) (referencesOf s) with
          | .error e => .error (.reference e)
          | .ok () => firstFault (checkNeed r) s.needs

/-- The rules of the steps in order, each seeing the names before it. -/
def checkSteps (w : String) (params all : List String) :
    (earlier : List String) → List Step → Except Fault Unit
  | _, [] => .ok ()
  | earlier, s :: rest =>
      if Text.allBlank s.name then .error (.emptyStepName w)
      else
        match checkStep ⟨params, earlier, all⟩ s with
        | .error e => .error (.atStep w s.name e)
        | .ok () => checkSteps w params all (s.name :: earlier) rest

/-- Accepts a workflow that keeps all rules, and reports the first broken one otherwise. -/
def check (w : Workflow) : Except Fault Unit :=
  if Text.allBlank w.name then .error .emptyName
  else if w.steps.isEmpty then .error (.noSteps w.name)
  else
    match checkParams w.name [] w.params with
    | .error e => .error e
    | .ok () => checkSteps w.name (w.params.map (·.name)) w.stepNames [] w.steps

/-! ## Tools -/

/-- The name of the tool that runs several queries at once. -/
def fanOutTool : String := "parallel_query"

/-- A literal query names a known tool other than the fan-out itself. -/
def checkQuery (tools : List String) (index : Nat) (query : Template) : Except StepFault Unit :=
  match query with
  | .map fs =>
      match Fields.get? "tool" fs with
      | some (.text sub) =>
          if sub = fanOutTool then .error (.nestedQuery index fanOutTool)
          else if !Text.contains "\x7b\x7b" sub && !tools.contains sub then
            .error (.unknownQueryTool index sub)
          else .ok ()
      | _ => .ok ()
  | _ => .ok ()

/-- A literal list of queries is checked here; any other input is left to the tool itself. -/
def checkQueries (tools : List String) (queries : Option Template) : Except StepFault Unit :=
  match queries with
  | none => .error (.missingQueries fanOutTool)
  | some (.list items) => firstFault (fun (i, q) => checkQuery tools i q) (items.zipIdx.map Prod.swap)
  | some _ => .ok ()

/-- The step's tool is known. -/
def checkStepTool (tools : List String) (s : Step) : Except StepFault Unit :=
  match s.tool with
  | none => .ok ()
  | some tool =>
      if !tools.contains tool then .error (.unknownTool tool tools)
      else if tool = fanOutTool then checkQueries tools (Fields.get? "queries" s.inputs)
      else .ok ()

/-- Every tool that the workflow names is among the given ones, which are in order. -/
def checkTools (tools : List String) (w : Workflow) : Except Fault Unit :=
  firstFault
    (fun s => (checkStepTool tools s).mapError fun e => .atStep w.name s.name e) w.steps

end Runbook.Workflow
