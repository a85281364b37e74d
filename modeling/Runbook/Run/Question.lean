import Runbook.Memory.Store

/-!
# What a run asks

A run is a dialogue with its surroundings. It asks the store for memory, the clock for the time,
whether it has been told to stop, a person for approval, and a tool for work. Nothing else
influences it.
-/

set_option autoImplicit false

namespace Runbook

/-- How a request for approval ended. -/
inductive Approval where
  | approved
  | denied
  /-- No answer in time. -/
  | expired
  /-- The run was told to stop first. -/
  | stopped
  deriving DecidableEq, Repr, Inhabited

inductive RunQuestion where
  | store (question : Memory.StoreQuestion)
  | time
  | stopRequested
  | approval (step prompt : String) (limitSecs : Option Nat)
  | call (tool : String) (inputs : Fields Json) (limitSecs : Option Nat)

/-- The answers to a question. -/
abbrev RunAnswer : RunQuestion → Type
  | .store q => Memory.StoreAnswer q
  | .time => Instant
  | .stopRequested => Bool
  | .approval .. => Approval
  | .call .. => Except Failure ToolOutput

/-- A computation within a run. -/
abbrev RunDialogue (α : Type) := Dialogue RunQuestion RunAnswer α

namespace RunDialogue

/-- A dialogue with the store alone. -/
def ofStore {α : Type} (d : Memory.StoreDialogue α) : RunDialogue α :=
  d.embed .store fun _ x => x

/-- The current time. -/
def time : RunDialogue Instant := .ask .time .done

/-- The run has been told to stop. -/
def stopRequested : RunDialogue Bool := .ask .stopRequested .done

/-- Asks a person. -/
def approval (step prompt : String) (limitSecs : Option Nat) : RunDialogue Approval :=
  .ask (.approval step prompt limitSecs) .done

/-- Has a tool do its work. -/
def call (tool : String) (inputs : Fields Json) (limitSecs : Option Nat) :
    RunDialogue (Except Failure ToolOutput) :=
  .ask (.call tool inputs limitSecs) .done

end RunDialogue
end Runbook
