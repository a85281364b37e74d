import Runbook.Json.Decode
import Runbook.Text.Blank
import Runbook.Text.Cut

/-!
# Memory needs

A step names the memory it wants to see. A need is a bare word, or a word with an argument in
parentheses that names a step or a tag:

- `user_prompt` (also `last_user_prompt`), `parameters`, `last_output` (also `previous_output`);
- `tool_output(s)` (also `step_output(s)`), `step(s)`, `classification(tag)`.

Blanks may stand around the need, before the parenthesis and around the argument. An argument
consists of ASCII letters, digits, `_`, `-` and `.`. Printing writes the first spelling of each
word without blanks, and reads back as the same need.
-/

set_option autoImplicit false

namespace Runbook

/-- A piece of memory that a step wants to see. -/
inductive Need where
  | userPrompt
  | parameters
  | toolOutput (step : String)
  | step (step : String)
  | lastOutput
  | classification (tag : String)
  deriving DecidableEq, Repr

inductive NeedError where
  | empty
  | unknown (need : String)
  | missingArgument (need : String)
  | invalidArgument (need arg : String)
  deriving DecidableEq, Repr

def NeedError.message : NeedError → String
  | .empty => "empty memory need"
  | .unknown need => s!"unknown memory need '{need}'"
  | .missingArgument need => s!"memory need '{need}' is missing its argument"
  | .invalidArgument need arg => s!"invalid argument '{arg}' in memory need '{need}'"

namespace Need

/-- The step whose result the need reads. -/
def referencedStep? : Need → Option String
  | .toolOutput s => some s
  | .step s => some s
  | _ => none

/-- The need in its first spelling. -/
def display : Need → String
  | .userPrompt => "user_prompt"
  | .parameters => "parameters"
  | .toolOutput s => s!"tool_output({s})"
  | .step s => s!"step({s})"
  | .lastOutput => "last_output"
  | .classification tag => s!"classification({tag})"

/-- A character that an argument may have. -/
def argumentChar (c : Char) : Bool :=
  ('a' ≤ c && c ≤ 'z') || ('A' ≤ c && c ≤ 'Z') || ('0' ≤ c && c ≤ '9') ||
    c == '_' || c == '-' || c == '.'

/-- The need of a bare word. -/
def ofWord (s : String) : Except NeedError Need :=
  match s with
  | "user_prompt" | "last_user_prompt" => .ok .userPrompt
  | "parameters" => .ok .parameters
  | "last_output" | "previous_output" => .ok .lastOutput
  | "tool_output" | "step_output" | "step" | "classification" => .error (.missingArgument s)
  | _ => .error (.unknown s)

/-- The need of a word with an argument, if the word takes one. -/
def ofHead? (head arg : String) : Option Need :=
  match head with
  | "tool_output" | "step_output" => some (.toolOutput arg)
  | "step" => some (.step arg)
  | "classification" => some (.classification arg)
  | _ => none

/-- Reads a need that has been trimmed. -/
def parseTrimmed (s : String) : Except NeedError Need :=
  if s.isEmpty then .error .empty
  else
    match Text.cut? '(' s with
    | none => ofWord s
    | some (head, rest) =>
        match Text.before? ")" rest with
        | none => .error (.unknown s)
        | some arg =>
            let arg := Text.trim arg
            if arg.isEmpty then .error (.missingArgument s)
            else if !arg.toList.all argumentChar then .error (.invalidArgument s arg)
            else
              match ofHead? (Text.trim head) arg with
              | some need => .ok need
              | none => .error (.unknown s)

/-- Reads a need. -/
def parse (s : String) : Except NeedError Need := parseTrimmed (Text.trim s)

/-- Reads a need from a JSON text. -/
def decode : Decoder Need := fun v =>
  match Decode.text v with
  | .error e => .error e
  | .ok s => (parse s).mapError fun e => .invalid e.message

end Need
end Runbook
