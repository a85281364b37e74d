import Runbook.Engine.Session
import Runbook.Rehearsal.Script
import Runbook.Text.Cut

/-!
# Runs and approvers that follow a script

For a rehearsal, an approver takes the first rule that applies to a step and its prompt, and
approves if there is none. It notes every prompt. A script also says when a run starts, is told to
stop, and is dropped.
-/

set_option autoImplicit false

namespace Runbook.Rehearsal

structure ApprovalRule where
  /-- The rule is for this step only. -/
  step : Option String := none
  /-- The rule is for prompts with this text only. -/
  contains : Option String := none
  answer : Option Bool
  delay : Nat := 0
  stopsRun : Bool := false

namespace ApprovalRule

def appliesTo (r : ApprovalRule) (step prompt : String) : Bool :=
  r.step.all (· == step) && r.contains.all fun part => Text.contains part prompt

def ofJson (script : Json) : ApprovalRule :=
  { step := str? script "step"
    contains := str? script "contains"
    answer := (field script "answer").bool?
    delay := nat script "delay_ms"
    stopsRun := flag script "cancel" }

end ApprovalRule

/-- An approver that follows rules. -/
def approver (rules : List ApprovalRule) : Approver := fun step prompt =>
  let notes := [Json.obj [("gate", .str step), ("prompt", .str prompt)]]
  match rules.find? (·.appliesTo step prompt) with
  | none => { notes, answer := some true }
  | some r => { notes, delay := r.delay, stopsRun := r.stopsRun, answer := r.answer }

/-- A run that nothing else ends is dropped after a day. -/
def oneDay : Nat := 86400000

/-- The run that a script asks for. Its own name, if it has none, is made from a number; without
one it is only approved or denied as a whole. -/
def requestOf (now : Instant) (n : Nat) (script : Json) : RunRequest :=
  let name := str script "name"
  let automatic : Approver := match field script "approve" with
    | .bool true => .always
    | _ => .never
  let (id, approver) := match str? script "run_id", field script "approve" with
    | some id, .bool _ => (id, automatic)
    | some id, rules => (id, approver (((rules.arr?).getD []).map ApprovalRule.ofJson))
    | none, _ => (RunId.make name now n, automatic)
  { workflow := name, id, params := table script "params", approver
    startAfter := nat script "start_ms", stopAfter := nat? script "cancel_at_ms"
    dropAfter := some ((nat? script "drop_at_ms").getD oneDay) }

end Runbook.Rehearsal
