import Runbook.Console.Command
import Runbook.Console.Host
import Runbook.Console.Report
import Runbook.Engine.Session
import Runbook.Json.Reader

/-!
# Carrying out commands

A command is carried out on a host, says something, and leaves the host changed. Only runs and
purges change the memory, and only changes of secrets change the vault. A command fails with a
complaint, which is all that it says then; a run that ends without having been completed is
reported like any other, but does not count as a success.
-/

set_option autoImplicit false

namespace Runbook.Console

/-- What a command says when it has been carried out. -/
structure Reply where
  lines : List String := []
  isSuccess : Bool := true

namespace Reply

def pretty (v : Json) : Reply := { lines := [v.pretty] }

def compact (v : Json) : Reply := { lines := [v.compress] }

/-- One of two replies, depending on whether reports are JSON. -/
def inForm (json : Bool) (v : Reply) (lines : List String) : Reply := if json then v else { lines }

def text (r : Reply) : String := Text.join "" (r.lines.map (· ++ "\n"))

end Reply

/-! ## Workflows -/

/-- The name and value in a text with an equals sign. A value that is not JSON is a text. -/
def paramOf (text : String) : Except Complaint (String × Json) :=
  match Text.cut? '=' text with
  | none => .error (.pairExpected text)
  | some (key, value) =>
      let key := Text.trim key
      if key.isEmpty then .error (.emptyKey text)
      else .ok (key, (Json.parse? value).getD (.str value))

/-- The parameters in texts; of several with one name, the last counts. -/
def paramsOf (texts : List String) : Except Complaint (Fields Json) :=
  (texts.mapM paramOf).map fun pairs => pairs.foldl (fun acc p => Fields.put p.1 p.2 acc) []

namespace Workbench

/-- Runs a workflow to its end. Nobody can be asked, so without approval in advance every gate is
denied. -/
def runWorkflow (b : Workbench) (engine : Engine) (name : String) (params : Fields Json)
    (approve : Bool) : Except Complaint RunRecord × Workbench :=
  let (random, host) := b.host.draw 4
  let (now, host) := host.time
  let id := RunId.make name now (random.foldl (fun n byte => 256 * n + byte.toNat) 0)
  let visit : Session.Visit Memory.RowTable :=
    { session := { engine, store := host.store, clock := host.clock } }
  let approver := if approve then Approver.always else Approver.never
  let visit := (visit.request { workflow := name, id, params, approver }).run
    Session.Visit.stepBound
  let host := { host with store := visit.session.store, clock := visit.session.clock }
  let result := match visit.ends with
    | [.finished r] => .ok r
    | [.refused e] => .error (.ofEngine e)
    | _ => .error { message := s!"run '{id}' has not ended" }
  (result, { b with host })

/-- What was recorded for a run. -/
def inspect (b : Workbench) (run : RunId) : Except EngineError Engine.Inspection :=
  ((Engine.inspect run).answered (Memory.reply b.host.clock) b.host.store).1

end Workbench

namespace WorkflowCommand

/-- Looks up a workflow, reads the parameters and runs it. -/
def performRun (i : Invocation) (name : String) (params : List String) (approve : Bool)
    (b : Workbench) : Except Complaint Reply × Workbench :=
  let prepared : Except Complaint (Engine × Fields Json) := do
    let engine ← b.engine i.file
    if (engine.workflow? name).isNone then throw (.ofEngine (.unknownWorkflow name))
    return (engine, ← paramsOf params)
  match prepared with
  | .error c => (.error c, b)
  | .ok (engine, params) =>
      match b.runWorkflow engine name params approve with
      | (.error c, b) => (.error c, b)
      | (.ok r, b) =>
          let said := if i.json then Reply.pretty r.encode
            else if i.quiet then {}
            else { lines := Report.run r }
          (.ok { said with isSuccess := r.status = .completed }, b)

/-- The place of the workflows, as a reader of reports knows it. -/
def placeText (file : Option String) : String := file.getD "default locations"

def perform (i : Invocation) (b : Workbench) :
    WorkflowCommand → Except Complaint Reply × Workbench
  | .list =>
      ((b.engine i.file).map fun engine =>
        .inForm i.json (.pretty (.arr (engine.workflows.map Workflow.summary)))
          (Report.workflows engine.workflows), b)
  | .validate =>
      ((b.engine i.file).map fun engine =>
        let names := engine.workflows.map (·.name)
        .inForm i.json
          (.compact (.obj [("valid", .bool true), ("workflows", .arr (names.map .str))]))
          (Report.valid names.length (placeText i.file)), b)
  | .run name params approve => performRun i name params approve b
  | .inspect id =>
      (((b.inspect id).map fun found =>
        .inForm i.json (.pretty found.encode) (Report.inspection found)).mapError .ofEngine, b)
  | .recent limit =>
      (((MemoryStore.runs limit b.host.store).map fun found =>
        .inForm i.json (.pretty (.arr (found.map RunOverview.encode)))
          (Report.recentRuns found)).mapError .ofStore, b)

end WorkflowCommand

/-! ## Memory -/

namespace MemoryCommand

/-- Removes what is older than a number of days. -/
def performPurge (json : Bool) (days : Nat) (b : Workbench) :
    Except Complaint Reply × Workbench :=
  let (now, host) := b.host.time
  let (result, store) := MemoryStore.purge (Memory.purgeCutoff now (days * 86400)) host.store
  let b := { b with host := { host with store } }
  ((result.map fun removed =>
    .inForm json
      (.compact (.obj [("removed", Json.nat removed), ("older_than_days", Json.nat days)]))
      (Report.purged removed days)).mapError .ofStore, b)

/-- A purge is confirmed by a person, unless it is forced or reported as JSON. -/
def perform (i : Invocation) (b : Workbench) : MemoryCommand → Except Complaint Reply × Workbench
  | .stats =>
      (((MemoryStore.stats b.host.store).map fun s =>
        .inForm i.json (.pretty s.encode) (Report.stats s)).mapError .ofStore, b)
  | .purge olderThanDays force =>
      if force || i.json then
        performPurge i.json (olderThanDays.getD b.config.memoryRetentionDays) b
      else (.error .noTerminal, b)

end MemoryCommand

/-! ## Secrets -/

namespace SecretCommand

/-- A hint at the secret that a lookup finds. -/
def hint (keepers : List Keeper) (key : String) : String :=
  Secret.masked ((Secret.Chain.get? key keepers).getD "")

def perform (i : Invocation) (b : Workbench) : SecretCommand → Except Complaint Reply × Workbench
  | .set _ none => (.error .noTerminal, b)
  | .set key (some value) =>
      let (result, keepers) := Secret.Chain.set key value b.keepers
      let masked := Secret.masked value
      let said := Reply.inForm i.json
        (.compact (.obj [("set", .bool true), ("key", .str key), ("masked", .str masked)]))
        (Report.secretSet key masked)
      ((result.map fun _ => said).mapError .ofSecret, b.putKeepers keepers)
  | .list =>
      let entries := Secret.Chain.list b.keepers
      (.ok (.inForm i.json (.pretty (.arr (entries.map SecretEntry.encode)))
        (Report.secrets (entries.map fun e => (e, hint b.keepers e.key)))), b)
  | .delete key =>
      let (result, keepers) := Secret.Chain.delete key b.keepers
      let said := Reply.inForm i.json
        (.compact (.obj [("deleted", .bool true), ("key", .str key)])) (Report.secretDeleted key)
      ((result.map fun _ => said).mapError .ofSecret, b.putKeepers keepers)

end SecretCommand

/-! ## Command lines -/

def Command.perform (i : Invocation) (b : Workbench) :
    Command → Except Complaint Reply × Workbench
  | .workflow c => c.perform i b
  | .memory c => c.perform i b
  | .secret c => c.perform i b

/-- What is left of a command for whoever called the program. -/
structure Outcome where
  code : Nat
  output : String := ""
  complaint : String := ""
  deriving DecidableEq, Repr, Inhabited

namespace Outcome

def ofRefusal : Refusal → Outcome
  | .misused path => { code := 2, complaint := usageText path }
  | .help path => { code := 0, output := usageText path }
  | .version path => { code := 0, output := Text.join "-" path ++ " " ++ programVersion ++ "\n" }

def ofResult : Except Complaint Reply → Outcome
  | .error c => { code := 1, complaint := c.text }
  | .ok r => { code := if r.isSuccess then 0 else 1, output := r.text }

end Outcome

/-- Carries out a command line. -/
def Host.perform (h : Host) (words : List String) : Outcome × Host :=
  match Invocation.ofWords h.environment words with
  | .error refusal => (.ofRefusal refusal, h)
  | .ok i =>
      match h.openData with
      | .error c => (.ofResult (.error c), h)
      | .ok b =>
          let (result, b) := i.command.perform i b
          (.ofResult result, b.host)

end Runbook.Console
