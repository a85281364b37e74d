import Runbook.Decimal.Reading
import Runbook.Json.Basic
import Runbook.Text.Cut
import Runbook.Yaml.Event

/-!
# Documents as JSON values

A plain scalar without a tag is null, a boolean, a number or a text, by its spelling; a quoted one
is a text. The tags of the core types decide the type, and other tags of theirs leave a text; local
tags are refused. Keys are the texts of their scalars, whatever those spell. Infinite numbers and
those that are none become null.

An alias stands for the node that its anchor had when the alias was read. Anchors are numbered by
how many different names came before, and a number stands for the last node that got it.
Collections nest at most 128 deep, counting through aliases, and a document may follow a hundred
times as many aliases as it has events.
-/

set_option autoImplicit false

namespace Runbook.Yaml

/-! ## Scalars -/

def isNullText (s : String) : Bool := ["null", "Null", "NULL", "~"].contains s

def boolOf? (s : String) : Option Bool :=
  if ["true", "True", "TRUE"].contains s then some true
  else if ["false", "False", "FALSE"].contains s then some false
  else none

/-- Digits of a base, at least one. -/
def naturalIn? (base : Nat) (cs : List Char) : Option Nat :=
  if cs.isEmpty then none
  else
    cs.foldl
      (fun acc c => do
        let d ← hexValue? c
        if d < base then return (← acc) * base + d else none)
      (some 0)

/-- Digits behind the mark of their base. -/
def marked? : List Char → Option Nat
  | '0' :: 'x' :: cs => naturalIn? 16 cs
  | '0' :: 'o' :: cs => naturalIn? 8 cs
  | '0' :: 'b' :: cs => naturalIn? 2 cs
  | _ => none

/-- Without a sign in front. -/
def withoutSign : List Char → List Char
  | '+' :: cs => cs
  | '-' :: cs => cs
  | cs => cs

/-- More than one digit with a zero in front, which is a text and not a number. -/
def isPaddedDigits (cs : List Char) : Bool :=
  match withoutSign cs with
  | '0' :: d :: ds => (d :: ds).all Text.isDigit
  | _ => false

/-- An integer: decimal, or with the mark of its base. -/
def integerOf? (cs : List Char) : Option Int :=
  match cs with
  | '-' :: r =>
      match marked? r with
      | some n => some (-n)
      | none => if isPaddedDigits cs then none else (naturalIn? 10 r).map fun n => -n
  | _ =>
      let r := match cs with
        | '+' :: r => r
        | r => r
      match marked? r with
      | some n => some n
      | none => if isPaddedDigits cs then none else (naturalIn? 10 r).map fun n => n

/-- A floating-point number: a finite decimal, or null for the names of the others. -/
def floatOf? (cs : List Char) : Option Json :=
  let s := String.ofList cs
  if [".inf", ".Inf", ".INF", "+.inf", "+.Inf", "+.INF", "-.inf", "-.Inf", "-.INF", ".nan", ".NaN",
      ".NAN"].contains s then some .null
  else
    match Decimal.read? cs with
    | some x => if x.isFinite then some (.num (.float x)) else none
    | none => none

/-- An integer that fits 64 bits as a value; a wider one is refused up to 128 bits, and beyond
that not taken for an integer. -/
def integerValue? (s : String) : Option (Except Fault Json) :=
  match integerOf? s.toList with
  | none => none
  | some n =>
      if -Int.pow 2 63 ≤ n ∧ n < Int.pow 2 64 then some (.ok (Json.int n))
      else if -Int.pow 2 127 ≤ n ∧ n < Int.pow 2 128 then some (.error (.wideInteger s))
      else none

/-- The value of a plain scalar, by its spelling. -/
def plainValue (s : String) : Except Fault Json :=
  if s.isEmpty || isNullText s then .ok .null
  else
    match boolOf? s, integerValue? s with
    | some b, _ => .ok (.bool b)
    | _, some r => r
    | _, none =>
        if isPaddedDigits s.toList then .ok (.str s) else .ok ((floatOf? s.toList).getD (.str s))

/-- The tag of a core type. -/
def coreTag (name : String) : String := "tag:yaml.org,2002:" ++ name

/-- The value of a scalar under a tag. -/
def taggedValue (tag s : String) : Except Fault Json :=
  let orRefuse (v : Option Json) : Except Fault Json :=
    match v with
    | some v => .ok v
    | none => .error (.badScalar tag s)
  if tag = coreTag "bool" then orRefuse ((boolOf? s).map .bool)
  else if tag = coreTag "int" then (integerValue? s).getD (.error (.badScalar tag s))
  else if tag = coreTag "float" then orRefuse (floatOf? s.toList)
  else if tag = coreTag "null" then orRefuse (if isNullText s then some .null else none)
  else if Text.startsWith "!" tag then .error (.localTag tag)
  else .ok (.str s)

def scalarValue (p : Properties) (plain : Bool) (s : String) : Except Fault Json :=
  match p.tag with
  | some tag => taggedValue tag s
  | none => if plain then plainValue s else .ok (.str s)

/-- Collections take any tag but a local one. -/
def checkCollectionTag (p : Properties) : Except Fault Unit :=
  match p.tag with
  | some tag => if Text.startsWith "!" tag then .error (.localTag tag) else .ok ()
  | none => .ok ()

/-! ## Aliases -/

/-- The anchor of the node that the event starts. -/
def Event.anchor? : Event → Option String
  | .scalar p _ _ => p.anchor
  | .sequence p => p.anchor
  | .mapping p => p.anchor
  | _ => none

/-- An event whose alias, if it is one, is a number. -/
inductive Linked where
  | alias (number : Nat)
  | event (e : Event)

/-- Numbers the aliases by the anchors in front of them. -/
def link (numbers : Fields Nat) : List Event → Except Fault (List Linked)
  | [] => .ok []
  | .alias name :: es =>
      match Fields.get? name numbers with
      | none => .error (.unknownAlias name)
      | some n => do return .alias n :: (← link numbers es)
  | e :: es =>
      let numbers := match e.anchor? with
        | some a => Fields.put a numbers.length numbers
        | none => numbers
      do return .event e :: (← link numbers es)

/-- For each number, what starts at the node that it stands for, the last one first. -/
def targets (names : List String) (found : List (Nat × List Linked)) :
    List Linked → List (Nat × List Linked)
  | [] => found
  | .event e :: es =>
      match e.anchor? with
      | some a =>
          targets (if names.contains a then names else a :: names)
            ((names.length, .event e :: es) :: found) es
      | none => targets names found es
  | .alias _ :: es => targets names found es

/-! ## Values -/

structure Document where
  targets : List (Nat × List Linked)
  /-- How many aliases may be followed. -/
  limit : Nat

namespace Document

def target? (d : Document) (number : Nat) : Option (List Linked) :=
  (d.targets.find? (·.1 = number)).map (·.2)

/-- How many aliases have been followed, and the events still to be read. -/
abbrev Position := Nat × List Linked

/-- A key is the text of a scalar. -/
def key (d : Document) :
    (fuel : Nat) → (followed : Nat) → List Linked → Except Fault (String × Position)
  | 0, _, _ => .error .tooDeep
  | fuel + 1, followed, es =>
      match es with
      | .event (.scalar _ _ s) :: es => .ok (s, followed, es)
      | .alias n :: es =>
          if followed + 1 > d.limit then .error .tooManyAliases
          else do
            let (s, followed, _) ← key d fuel (followed + 1) ((d.target? n).getD [])
            return (s, followed, es)
      | _ => .error .badKey

mutual

/-- The value that starts here; `depth` collections may still be opened. -/
def value (d : Document) :
    (fuel : Nat) → (depth followed : Nat) → List Linked → Except Fault (Json × Position)
  | 0, _, _, _ => .error .tooDeep
  | fuel + 1, depth, followed, es =>
      match es with
      | .alias n :: es =>
          if followed + 1 > d.limit then .error .tooManyAliases
          else do
            let (v, followed, _) ← value d fuel depth (followed + 1) ((d.target? n).getD [])
            return (v, followed, es)
      | .event (.scalar p plain s) :: es => do return (← scalarValue p plain s, followed, es)
      | .event (.sequence p) :: es => do
          checkCollectionTag p
          match depth with
          | 0 => .error .tooDeep
          | depth + 1 =>
              let (vs, followed, es) ← items d fuel depth followed es
              return (.arr vs, followed, es)
      | .event (.mapping p) :: es => do
          checkCollectionTag p
          match depth with
          | 0 => .error .tooDeep
          | depth + 1 =>
              let (fs, followed, es) ← entries d fuel depth followed es
              return (.obj (Fields.ofWrites fs), followed, es)
      | _ => .error (.expected "node content")

def items (d : Document) :
    (fuel : Nat) → (depth followed : Nat) → List Linked → Except Fault (List Json × Position)
  | 0, _, _, _ => .error .tooDeep
  | fuel + 1, depth, followed, es =>
      match es with
      | .event .sequenceEnd :: es => .ok ([], followed, es)
      | es => do
          let (v, followed, es) ← value d fuel depth followed es
          let (vs, followed, es) ← items d fuel depth followed es
          return (v :: vs, followed, es)

def entries (d : Document) :
    (fuel : Nat) → (depth followed : Nat) → List Linked →
    Except Fault (List (String × Json) × Position)
  | 0, _, _, _ => .error .tooDeep
  | fuel + 1, depth, followed, es =>
      match es with
      | .event .mappingEnd :: es => .ok ([], followed, es)
      | es => do
          let (k, followed, es) ← key d fuel followed es
          let (v, followed, es) ← value d fuel depth followed es
          let (fs, followed, es) ← entries d fuel depth followed es
          return ((k, v) :: fs, followed, es)

end

/-- The value of a document; a text without a document is null. -/
def ofEvents (events : List Event) : Except Fault Json :=
  if events.isEmpty then .ok .null
  else do
    let linked ← link [] events
    let d : Document := ⟨Yaml.targets [] [] linked, 100 * events.length⟩
    let (v, _, _) ← d.value (300 * (events.length + 1)) 128 0 linked
    return v

/-- The value of the document that a text holds. -/
def ofText (s : String) : Except Fault Json := do
  ofEvents (← Event.ofTokens (← Token.ofText s.toList))

end Document
end Runbook.Yaml
