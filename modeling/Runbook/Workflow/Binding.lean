import Runbook.Workflow.Basic
import Runbook.Workflow.Error

/-!
# Binding parameters

The parameters of a run are the declared ones in declared order, each with the provided value or
else its default, followed by the provided ones that are not declared. A declared parameter with
neither is missing; all missing ones are reported together.
-/

set_option autoImplicit false

namespace Runbook.Workflow

/-- A binding in progress: what is still to be used, what is bound, and what is missing. -/
structure Binding where
  unused : Fields Json
  bound : Fields Json
  missing : List String

/-- Binds one declared parameter. -/
def Binding.add (b : Binding) (p : Param) : Binding :=
  match Fields.get? p.name b.unused, p.default with
  | some v, _ => { b with unused := Fields.take p.name b.unused, bound := Fields.put p.name v b.bound }
  | none, some v => { b with bound := Fields.put p.name v b.bound }
  | none, none => { b with missing := b.missing ++ [p.name] }

/-- The parameters of a run. -/
def bindParams (w : Workflow) (provided : Fields Json) : Except Fault (Fields Json) :=
  let b := w.params.foldl Binding.add ⟨provided, [], []⟩
  if b.missing.isEmpty then .ok (Fields.extend b.bound b.unused)
  else .error (.missingParams w.name b.missing)

end Runbook.Workflow
