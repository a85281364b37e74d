import Runbook.Console.Grammar
import Runbook.Console.Verbosity
import Runbook.Run.Record
import Runbook.Text.Numeral

/-!
# Commands

The program lists, checks, runs and inspects workflows, counts and purges memory, and keeps
secrets. A command line says which of these to do, in which form to report it, and where the
workflows are.
-/

set_option autoImplicit false

namespace Runbook.Console

inductive WorkflowCommand where
  | list
  | validate
  /-- Runs a workflow with parameters that are still texts. -/
  | run (name : String) (params : List String) (approve : Bool)
  | inspect (run : RunId)
  /-- Lists the runs that were active last. -/
  | recent (limit : Nat)
  deriving DecidableEq, Repr

inductive MemoryCommand where
  | stats
  | purge (olderThanDays : Option Nat) (force : Bool)
  deriving DecidableEq, Repr

inductive SecretCommand where
  /-- Without a value, it is asked for. -/
  | set (key : String) (value : Option String)
  | list
  | delete (key : String)
  deriving DecidableEq, Repr

inductive Command where
  | workflow (c : WorkflowCommand)
  | memory (c : MemoryCommand)
  | secret (c : SecretCommand)
  deriving DecidableEq, Repr

/-- A command line that has been understood. -/
structure Invocation where
  command : Command
  /-- Reports are JSON. -/
  json : Bool
  /-- Runs are not reported. -/
  quiet : Bool
  verbosity : Verbosity
  /-- The file with the workflows. -/
  file : Option String
  deriving DecidableEq, Repr

/-! ## The grammar -/

def programName : String := "stepwise"

def programVersion : String := "0.1.0"

/-- A number of days of 32 bits; zero may be negative. -/
def dayCount? (s : String) : Option Nat :=
  match s.toList with
  | '-' :: cs => Text.boundedDigits? 1 cs
  | _ => Text.bounded? (Nat.pow 2 32) s

def jsonOption : OptionRule := { name := "json", takes := .nothing }

def quietOption : OptionRule := { name := "quiet", takes := .nothing }

def verboseOption : OptionRule := { name := "verbose", short := some 'v', takes := .repeats }

/-- Asks for a trace, which this program does not write. -/
def traceOption : OptionRule :=
  { name := "otel", takes := .nothing, fromVariable := some "STEPWISE_OTEL"
    admits := fun s => s = "true" || s = "false" }

def fileOption : OptionRule :=
  { name := "file", takes := .value, fromVariable := some "STEPWISE_WORKFLOWS"
    admits := fun s => !s.isEmpty }

/-- The options that may stand at every level. -/
def everywhere : List OptionRule :=
  [jsonOption, quietOption, verboseOption, traceOption, fileOption]

def paramOption : OptionRule := { name := "param", short := some 'p', takes := .values }

def approveOption : OptionRule := { name := "yes", short := some 'y', takes := .nothing }

def recentOption : OptionRule := { name := "recent", takes := .nothing }

def limitOption : OptionRule :=
  { name := "limit", takes := .value, admits := fun s => (Text.word? s).isSome }

def ageOption : OptionRule :=
  { name := "older-than-days", takes := .value, admits := fun s => (dayCount? s).isSome }

def forceOption : OptionRule := { name := "force", takes := .nothing }

def workflowGrammar : Grammar :=
  .command ["workflow", "wf"] [] 0
    [ .command ["list", "ls"] [] 0 [],
      .command ["validate"] [] 0 [],
      .command ["run"] [paramOption, approveOption] 1 [],
      .command ["inspect"] [recentOption, limitOption] 1 [] ]

def memoryGrammar : Grammar :=
  .command ["memory"] [] 0
    [.command ["stats"] [] 0 [], .command ["purge"] [ageOption, forceOption] 0 []]

def secretGrammar : Grammar :=
  .command ["secret"] [] 0
    [ .command ["set"] [] 2 [],
      .command ["list", "ls"] [] 0 [],
      .command ["delete", "rm"] [] 1 [] ]

def grammar : Grammar :=
  .command [programName] [] 0 [workflowGrammar, memoryGrammar, secretGrammar]

/-! ## Understanding -/

/-- How many recent runs are listed if nothing else is asked for. -/
def usualLimit : Nat := 10

/-- The command that the levels name; none if something is missing or does not go together. -/
def commandOf? (env : Environment) (levels : List Level) : Option Command :=
  let operands := (levels.getLast?.map (·.operands)).getD []
  match levels.map (·.command), operands with
  | [_, "workflow", "list"], _ => some (.workflow .list)
  | [_, "workflow", "validate"], _ => some (.workflow .validate)
  | [_, "workflow", "run"], [name] =>
      some (.workflow (.run name (valuesOf paramOption.name levels)
        (isGiven approveOption.name levels)))
  | [_, "workflow", "inspect"], operands =>
      match operands, isGiven recentOption.name levels with
      | [run], false => some (.workflow (.inspect run))
      | [], true =>
          let limit := (valueOf? env limitOption levels).bind Text.word?
          some (.workflow (.recent (limit.getD usualLimit)))
      | _, _ => none
  | [_, "memory", "stats"], _ => some (.memory .stats)
  | [_, "memory", "purge"], _ =>
      some (.memory (.purge ((valueOf? env ageOption levels).bind dayCount?)
        (isGiven forceOption.name levels)))
  | [_, "secret", "set"], [key] => some (.secret (.set key none))
  | [_, "secret", "set"], [key, value] => some (.secret (.set key (some value)))
  | [_, "secret", "list"], _ => some (.secret .list)
  | [_, "secret", "delete"], [key] => some (.secret (.delete key))
  | _, _ => none

/-- What the words of a command line ask for. -/
def Invocation.ofWords (env : Environment) (words : List String) : Except Refusal Invocation :=
  match grammar.read everywhere env words with
  | .error e => .error e
  | .ok levels =>
      match commandOf? env levels with
      | none => .error (.misused (levels.map (·.command)))
      | some command =>
          let quiet := isGiven quietOption.name levels
          .ok {
            command, quiet
            json := isGiven jsonOption.name levels
            verbosity := .ofCount quiet (valuesOf verboseOption.name levels).length
            file := valueOf? env fileOption levels }

/-! ## Refusals -/

/-- How the command at the end of a path is used. -/
def usageText (path : List String) : String :=
  "Usage: " ++ Text.join " " path ++ " [OPTIONS] [COMMAND]\n"

end Runbook.Console
