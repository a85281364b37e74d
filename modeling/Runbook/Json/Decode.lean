import Runbook.Json.Printer

/-!
# Decoding domain values

A decoder turns a JSON value into a domain value or says why it cannot. The causes are a field
that is not there, a name that is not one of a fixed list, a value of the wrong kind, and a rule
of the domain with its own wording.

A record is decoded in two passes. The first checks the known fields in the order in which they
stand in the table, so the first bad value is the one reported; the second builds the record in
its own order, so of several missing fields the first declared is reported. Unknown fields are
passed over.
-/

set_option autoImplicit false

namespace Runbook

inductive DecodeError where
  /-- A required field is not there. -/
  | missingField (name : String)
  /-- A name outside the list of known ones. -/
  | unknownVariant (name : String) (known : List String)
  /-- A value of another kind than expected. -/
  | wrongType (found expected : String)
  /-- A number outside the range of its type. -/
  | outOfRange (found expected : String)
  /-- A list with too few or too many items for a record. -/
  | wrongLength (found : Nat) (expected : String)
  /-- A rule of the domain is broken. -/
  | invalid (message : String)
  deriving DecidableEq, Repr

namespace DecodeError

/-- The known names in prose: one, two joined by "or", or "one of" a list. -/
def expectedNames : List String → String
  | [] => "there are no variants"
  | [a] => s!"expected `{a}`"
  | [a, b] => s!"expected `{a}` or `{b}`"
  | names => "expected one of " ++ String.intercalate ", " (names.map fun n => s!"`{n}`")

def message : DecodeError → String
  | .missingField name => s!"missing field `{name}`"
  | .unknownVariant name known => s!"unknown variant `{name}`, {expectedNames known}"
  | .wrongType found expected => s!"invalid type: {found}, expected {expected}"
  | .outOfRange found expected => s!"invalid value: {found}, expected {expected}"
  | .wrongLength found expected => s!"invalid length {found}, expected {expected}"
  | .invalid message => message

end DecodeError

/-- A partial reading of JSON values. -/
abbrev Decoder (α : Type) := Json → Except DecodeError α

namespace Decode

variable {α : Type}

/-- The kind of a value, in the words of an error message. -/
def kindOf : Json → String
  | .null => "null"
  | .bool true => "boolean `true`"
  | .bool false => "boolean `false`"
  | .num (.int n) => s!"integer `{n}`"
  | .num n => s!"floating point `{n.render}`"
  | .str s => "string " ++ Json.quote s
  | .arr _ => "sequence"
  | .obj _ => "map"

def text : Decoder String
  | .str s => .ok s
  | v => .error (.wrongType (kindOf v) "a string")

def boolean : Decoder Bool
  | .bool b => .ok b
  | v => .error (.wrongType (kindOf v) "a boolean")

/-- A natural number of the given number of bits; `name` is its type in messages. -/
def word (bits : Nat) (name : String) : Decoder Nat
  | .num (.int n) =>
      if 0 ≤ n ∧ n < Int.pow 2 bits then .ok n.toNat
      else .error (.outOfRange s!"integer `{n}`" name)
  | v => .error (.wrongType (kindOf v) name)

def word64 : Decoder Nat := word 64 "u64"

def size : Decoder Nat := word 64 "usize"

def word32 : Decoder Nat := word 32 "u32"

/-- A value of any kind. -/
def any : Decoder Json := .ok

/-- Null stands for none. -/
def option (d : Decoder α) : Decoder (Option α)
  | .null => .ok none
  | v => (d v).map some

def itemsWith (d : Decoder α) : List Json → Except DecodeError (List α)
  | [] => .ok []
  | v :: vs =>
      match d v with
      | .error e => .error e
      | .ok x =>
          match itemsWith d vs with
          | .error e => .error e
          | .ok xs => .ok (x :: xs)

/-- A list whose items all decode; the first bad one is reported. -/
def list (d : Decoder α) : Decoder (List α)
  | .arr vs => itemsWith d vs
  | v => .error (.wrongType (kindOf v) "a sequence")

def entriesWith (d : Decoder α) : Fields Json → Except DecodeError (Fields α)
  | [] => .ok []
  | (k, v) :: rest =>
      match d v with
      | .error e => .error e
      | .ok x =>
          match entriesWith d rest with
          | .error e => .error e
          | .ok xs => .ok ((k, x) :: xs)

/-- A table whose values all decode. -/
def table (d : Decoder α) : Decoder (Fields α)
  | .obj fs => entriesWith d fs
  | v => .error (.wrongType (kindOf v) "a map")

/-- One of a fixed list of names. A table with the name as its only key and null under it says
the same. -/
def variant (known : List (String × α)) : Decoder α
  | .str s =>
      match Fields.get? s known with
      | some x => .ok x
      | none => .error (.unknownVariant s (Fields.names known))
  | .obj [(k, v)] =>
      match Fields.get? k known, v with
      | some x, .null => .ok x
      | some _, v => .error (.wrongType (kindOf v) "unit variant")
      | none, _ => .error (.unknownVariant k (Fields.names known))
  | .obj _ => .error (.outOfRange "map" "map with a single key")
  | v => .error (.wrongType (kindOf v) "string or map")

/-! ## Records -/

/-- What is known about a field: its name, whether its value is acceptable, and whether a list that
stands for the record may end before it. -/
structure FieldCheck where
  name : String
  check : Json → Except DecodeError Unit
  mayLack : Bool := false

/-- The check that a decoder makes. -/
def field (name : String) (d : Decoder α) : FieldCheck :=
  { name, check := fun v => (d v).map fun _ => () }

/-- The check of a field with a value of its own when it is not there. -/
def spare (name : String) (d : Decoder α) : FieldCheck := { field name d with mayLack := true }

/-- The first pass: the known fields in the order of the table. -/
def checkFields (known : List FieldCheck) : Fields Json → Except DecodeError Unit
  | [] => .ok ()
  | (k, v) :: rest =>
      match known.find? (·.name = k) with
      | none => checkFields known rest
      | some c =>
          match c.check v with
          | .error e => .error e
          | .ok () => checkFields known rest

/-- A list stands for the fields in declared order. It may end before fields that have a value of
their own. -/
def checkLength (what : String) (known : List FieldCheck) (n : Nat) : Except DecodeError Unit :=
  if n > known.length then .error (.wrongLength n "fewer elements in array")
  else if (known.drop n).all (·.mayLack) then .ok ()
  else .error (.wrongLength n s!"struct {what} with {known.length} elements")

/-- The fields of a record that passed the first pass. -/
def record (what : String) (known : List FieldCheck) (v : Json) :
    Except DecodeError (Fields Json) :=
  match v with
  | .obj fs => (checkFields known fs).map fun _ => fs
  | .arr vs => do
      let fs := (known.map (·.name)).zip vs
      checkFields known fs
      checkLength what known vs.length
      return fs
  | v => .error (.wrongType (kindOf v) s!"struct {what}")

/-- The tag that says how to decode a value, and the value without it. In a table the tag is a
field, wherever it stands; in a list it is the first item. -/
def tagged (name : String) : Decoder (String × Json)
  | .obj fs =>
      match Fields.get? name fs with
      | none => .error (.missingField name)
      | some tag => (text tag).map fun s => (s, .obj (fs.filter fun e => e.1 ≠ name))
  | .arr [] => .error (.missingField name)
  | .arr (tag :: rest) => (text tag).map fun s => (s, .arr rest)
  | v => .error (.wrongType (kindOf v) "a tagged value")

/-- A field that must be there. -/
def required (name : String) (d : Decoder α) (fs : Fields Json) : Except DecodeError α :=
  match Fields.get? name fs with
  | some v => d v
  | none => .error (.missingField name)

/-- A field that has a value of its own when it is not there. -/
def withDefault (name : String) (d : Decoder α) (default : α) (fs : Fields Json) :
    Except DecodeError α :=
  match Fields.get? name fs with
  | some v => d v
  | none => .ok default

/-- A field that may be absent or null. -/
def optional (name : String) (d : Decoder α) (fs : Fields Json) : Except DecodeError (Option α) :=
  withDefault name (option d) none fs

end Decode

namespace Encode

/-- A field that is always written. -/
def field (name : String) (v : Json) : Fields Json := [(name, v)]

/-- A field that is left out when there is no value. -/
def optional (name : String) (v : Option Json) : Fields Json :=
  match v with
  | some v => [(name, v)]
  | none => []

/-- A field that is left out when the condition does not hold. -/
def when (keep : Bool) (name : String) (v : Json) : Fields Json :=
  if keep then [(name, v)] else []

end Encode
end Runbook
