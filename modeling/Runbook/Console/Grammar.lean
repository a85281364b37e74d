import Runbook.Secret.Environment
import Runbook.Text.Cut

/-!
# Command lines

A command line names a command, then commands within it, with options and operands on the way.
Its grammar is a tree of commands. Some options may stand at every level; of several levels the
innermost counts. An option with a variable takes its value from the environment where it is not
given.

The words are read one after another. A word is read as a value if the option before it waits for
one, as an operand after a lone `--`, as the name of a command if there is one of that name, and
otherwise by its leading dashes.
-/

set_option autoImplicit false

namespace Runbook.Console

/-- What an option takes. -/
inductive Takes where
  /-- Nothing; it is given at most once. -/
  | nothing
  /-- Nothing, any number of times. -/
  | repeats
  /-- One value. -/
  | value
  /-- One value, any number of times. -/
  | values
  deriving DecidableEq, Repr, Inhabited

structure OptionRule where
  name : String
  short : Option Char := none
  takes : Takes
  /-- The values that are admitted. -/
  admits : String → Bool := fun _ => true
  /-- The variable that holds the value where none is given. -/
  fromVariable : Option String := none

/-- The option waits for a value. -/
def OptionRule.takesValue (o : OptionRule) : Bool := o.takes = .value || o.takes = .values

/-- The option may be given more than once. -/
def OptionRule.mayRepeat (o : OptionRule) : Bool := o.takes = .repeats || o.takes = .values

/-- A command with its other names, its options, the number of its operands, and the commands
within it. -/
inductive Grammar where
  | command (names : List String) (options : List OptionRule) (operands : Nat)
      (within : List Grammar)

namespace Grammar

def names : Grammar → List String
  | command names _ _ _ => names

def options : Grammar → List OptionRule
  | command _ options _ _ => options

def operands : Grammar → Nat
  | command _ _ operands _ => operands

def commands : Grammar → List Grammar
  | command _ _ _ commands => commands

def name (g : Grammar) : String := g.names.headD ""

/-- The command of that name within another one. -/
def command? (g : Grammar) (name : String) : Option Grammar :=
  g.commands.find? fun c => c.names.contains name

end Grammar

/-- What one level of a command line holds. -/
structure Level where
  command : String
  /-- Names of options with their values, as given. -/
  options : List (String × String) := []
  operands : List String := []
  deriving DecidableEq, Repr, Inhabited

/-- Why a command line is not carried out. The names lead to the command that it is about. -/
inductive Refusal where
  | misused (path : List String)
  | version (path : List String)
  | help (path : List String)
  deriving DecidableEq, Repr, Inhabited

/-- How far a command line has been read. -/
structure Reading where
  grammar : Grammar
  /-- The outer levels with the options they may have, innermost first. -/
  outer : List (Level × List OptionRule) := []
  level : Level
  /-- An option that waits for its value. -/
  waiting : Option OptionRule := none
  operandsOnly : Bool := false
  /-- Help is asked for on the command that is named. -/
  asksHelp : Bool := false

namespace Reading

/-- The names of the commands, outermost first. -/
def path (r : Reading) : List String :=
  (r.outer.map fun o => o.1.command).reverse ++ [r.level.command]

def misused {α : Type} (r : Reading) : Except Refusal α := .error (.misused r.path)

/-- The options that may stand at this level. -/
def rules (everywhere : List OptionRule) (r : Reading) : List OptionRule :=
  r.grammar.options ++ everywhere

/-- An option with its value. -/
def give (o : OptionRule) (value : String) (r : Reading) : Except Refusal Reading :=
  if !o.mayRepeat && (r.level.options.any fun given => given.1 = o.name) then r.misused
  else if o.takesValue && !o.admits value then r.misused
  else
    let options := r.level.options ++ [(o.name, value)]
    .ok { r with level := { r.level with options }, waiting := none }

def takeOperand (word : String) (r : Reading) : Except Refusal Reading :=
  if r.level.operands.length < r.grammar.operands then
    .ok { r with level := { r.level with operands := r.level.operands ++ [word] } }
  else r.misused

/-- Goes on with a command within the present one. -/
def enter (everywhere : List OptionRule) (g : Grammar) (r : Reading) : Reading :=
  { r with grammar := g, outer := (r.level, r.rules everywhere) :: r.outer
           level := { command := g.name } }

/-- The version of the command, or help on it. -/
def explain (name : String) (r : Reading) : Except Refusal Reading :=
  if name = "version" then .error (.version r.path) else .error (.help r.path)

/-- An option by its long name. -/
def takeLong (everywhere : List OptionRule) (word : String) (r : Reading) :
    Except Refusal Reading :=
  let (name, value) := match Text.cut? '=' word with
    | some (name, value) => (name, some value)
    | none => (word, none)
  match (r.rules everywhere).find? (·.name = name), value with
  | some o, some value => if o.takesValue then r.give o value else r.misused
  | some o, none => if o.takesValue then .ok { r with waiting := some o } else r.give o ""
  | none, some _ => r.misused
  | none, none => if ["version", "help"].contains name then r.explain name else r.misused

/-- Options by their short names, in one word; the rest of it is the value of one that takes
one. -/
def takeShort (everywhere : List OptionRule) : List Char → Reading → Except Refusal Reading
  | [], r => .ok r
  | c :: cs, r =>
      match (r.rules everywhere).find? (·.short = some c) with
      | some o =>
          if o.takesValue then
            match cs with
            | [] => .ok { r with waiting := some o }
            | '=' :: value => r.give o (String.ofList value)
            | value => r.give o (String.ofList value)
          else
            match r.give o "" with
            | .ok r => takeShort everywhere cs r
            | .error e => .error e
      | none =>
          if c = 'V' then r.explain "version" else if c = 'h' then r.explain "help" else r.misused

/-- Reads one word. -/
def step (everywhere : List OptionRule) (r : Reading) (word : String) : Except Refusal Reading :=
  if r.asksHelp then
    match r.grammar.command? word with
    | some g => .ok (r.enter everywhere g)
    | none => r.misused
  else
    match r.waiting with
    | some o =>
        match word.toList with
        | '-' :: _ :: _ => r.misused
        | _ => r.give o word
    | none =>
        if r.operandsOnly then r.takeOperand word
        else
          match r.grammar.command? word with
          | some g => .ok (r.enter everywhere g)
          | none =>
              if word = "help" && !r.grammar.commands.isEmpty then .ok { r with asksHelp := true }
              else
                match word.toList with
                | ['-', '-'] => .ok { r with operandsOnly := true }
                | '-' :: '-' :: name => r.takeLong everywhere (String.ofList name)
                | '-' :: c :: cs => r.takeShort everywhere (c :: cs)
                | _ => r.takeOperand word

/-- The variable of an option that is not given holds a value that is admitted. -/
def isFilled (env : Environment) (level : Level) (o : OptionRule) : Bool :=
  level.options.any (fun given => given.1 = o.name) ||
    ((o.fromVariable.bind env.get?).all o.admits)

/-- All levels, outermost first, when the words are over. -/
def finish (env : Environment) (everywhere : List OptionRule) (r : Reading) :
    Except Refusal (List Level) :=
  if r.asksHelp then .error (.help r.path)
  else
    let all := (r.level, r.rules everywhere) :: r.outer
    if r.waiting.isSome || !(all.all fun l => l.2.all (isFilled env l.1)) then r.misused
    else .ok (all.map (·.1)).reverse

end Reading

namespace Grammar

/-- The levels of a command line. -/
def read (g : Grammar) (everywhere : List OptionRule) (env : Environment) (words : List String) :
    Except Refusal (List Level) :=
  match words.foldlM (Reading.step everywhere) { grammar := g, level := { command := g.name } } with
  | .error e => .error e
  | .ok r => r.finish env everywhere

end Grammar

/-! ## Looking up options -/

/-- The option is given at some level. -/
def isGiven (name : String) (levels : List Level) : Bool :=
  levels.any fun l => l.options.any fun given => given.1 = name

/-- The values of an option at the innermost level that has one. -/
def valuesOf (name : String) (levels : List Level) : List String :=
  let found := levels.map fun l => (l.options.filter fun given => given.1 = name).map (·.2)
  (found.reverse.find? fun values => !values.isEmpty).getD []

/-- The value of an option, or else of its variable. -/
def valueOf? (env : Environment) (o : OptionRule) (levels : List Level) : Option String :=
  (valuesOf o.name levels).getLast?.or (o.fromVariable.bind env.get?)

end Runbook.Console
