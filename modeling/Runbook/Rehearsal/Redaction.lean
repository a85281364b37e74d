import Runbook.Json.Basic
import Runbook.Text.Cut
import Runbook.Text.Numeral

/-!
# What differs from run to run

Two runs of the same workflow differ in their times and in the tails of their generated names.
Redaction replaces both, and the numbers that say how long something took, so that what is left
can be compared.
-/

set_option autoImplicit false

namespace Runbook.Rehearsal

/-! ## Shapes -/

/-- The character fits a place: `d` is a digit, `x` a hexadecimal digit, all else is itself. -/
def fitsPlace (place c : Char) : Bool :=
  if place = 'd' then Text.isDigit c
  else if place = 'x' then Text.isDigit c || ('a' ≤ c && c ≤ 'f')
  else place = c

/-- What follows a stretch that fits the shape. -/
def afterShape? : (shape cs : List Char) → Option (List Char)
  | [], cs => some cs
  | _ :: _, [] => none
  | p :: ps, c :: cs => if fitsPlace p c then afterShape? ps cs else none

/-- Without a fraction in front. -/
def dropFraction (cs : List Char) : List Char :=
  match cs with
  | '.' :: c :: rest => if Text.isDigit c then rest.dropWhile Text.isDigit else cs
  | cs => cs

/-- What follows a time in UTC. -/
def afterTime? (cs : List Char) : Option (List Char) :=
  match afterShape? "dddd-dd-ddTdd:dd:dd".toList cs with
  | none => none
  | some rest =>
      match dropFraction rest with
      | 'Z' :: rest => some rest
      | rest => Text.afterChars? "+00:00".toList rest

/-- What follows a number in front. -/
def afterNumber? (cs : List Char) : Option (List Char) :=
  match cs with
  | c :: rest => if Text.isDigit c then some (rest.dropWhile Text.isDigit) else none
  | [] => none

/-! ## Rules -/

/-- A rule looks at the front of a text. If it applies, it gives what is to stand there instead,
and what follows. -/
abbrev Rule := List Char → Option (List Char × List Char)

namespace Rule

/-- What fits a shape is replaced. -/
def shape (places instead : String) : Rule := fun cs =>
  (afterShape? places.toList cs).map fun rest => (instead.toList, rest)

/-- A text is replaced. -/
def exactly (text instead : String) : Rule := fun cs =>
  (Text.afterChars? text.toList cs).map fun rest => (instead.toList, rest)

/-- Times in UTC are replaced. -/
def time : Rule := fun cs => (afterTime? cs).map fun rest => ("<ts>".toList, rest)

/-- A number between a head and a tail is replaced. -/
def number (head instead tail : String) : Rule := fun cs =>
  match (Text.afterChars? head.toList cs).bind afterNumber? with
  | some rest =>
      if (Text.afterChars? tail.toList rest).isSome then
        some ((head ++ instead).toList, rest)
      else none
  | none => none

/-- The first of the rules that applies. -/
def firstOf (rules : List Rule) : Rule := fun cs => rules.findSome? fun rule => rule cs

end Rule

/-- The shape of the tail of a generated name. -/
def tailShape : String := "_dddddddd_dddddd_xxxxxxxx"

/-- Applies a rule to up to `fuel` pieces of a text. -/
def redactChars (rule : Rule) : (fuel : Nat) → List Char → List Char
  | 0, cs => cs
  | _ + 1, [] => []
  | fuel + 1, c :: cs =>
      match rule (c :: cs) with
      | some (front, rest) => front ++ redactChars rule fuel rest
      | none => c :: redactChars rule fuel cs

/-- Applies a rule to a whole text. -/
def redactAll (rule : Rule) (s : String) : String :=
  String.ofList (redactChars rule s.length s.toList)

/-! ## Texts -/

/-- The rule for values. -/
def valueRule : Rule :=
  .firstOf [.time, .shape tailShape "_<id>", .number "\"execution_time_ms\":" "0" ""]

/-- Replaces what follows the head. -/
def redactBehind (head s : String) : String :=
  match Text.cutAt? head s with
  | some before => before ++ head ++ "<detail>"
  | none => s

/-- What a reader says of a text that it cannot read is redacted. -/
def redactReading (s : String) : String :=
  redactBehind "decode step result: " (redactBehind "decode parameters: " s)

def redactText (s : String) : String := redactReading (redactAll valueRule s)

/-! ## Values -/

mutual

/-- Changes every text in a value; names of fields stay. -/
def mapTexts (f : String → String) : Json → Json
  | .str s => .str (f s)
  | .arr vs => .arr (mapItems f vs)
  | .obj fs => .obj (mapFields f fs)
  | v => v

def mapItems (f : String → String) : List Json → List Json
  | [] => []
  | v :: vs => mapTexts f v :: mapItems f vs

def mapFields (f : String → String) : List (String × Json) → List (String × Json)
  | [] => []
  | (k, v) :: rest => (k, mapTexts f v) :: mapFields f rest

end

/-- Redacts every text in a value. -/
def redact (v : Json) : Json := mapTexts redactText v

/-- Redacts the text that follows each occurrence of the head, up to a quote. -/
def redactQuoted (head : List Char) : (fuel : Nat) → List Char → List Char
  | 0, cs => cs
  | _ + 1, [] => []
  | fuel + 1, c :: cs =>
      match Text.afterChars? head (c :: cs) with
      | some rest => head ++ "<ts>".toList ++ redactQuoted head fuel (rest.dropWhile (· ≠ '"'))
      | none => c :: redactQuoted head fuel cs

/-- Redacts the times at which something was recorded. -/
def redactCreated (s : String) : String :=
  String.ofList (redactQuoted "\"created_at\":\"".toList s.length s.toList)

end Runbook.Rehearsal
