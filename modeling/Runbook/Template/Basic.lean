import Runbook.Json.Basic

/-!
# Template values

The input of a step before its placeholders are filled in: texts, which may hold placeholders,
lists and tables of template values, and literal scalars, which pass through untouched.

A template value is made from a JSON value in two ways. `ofJson` follows the value's own shape;
`read` is the decoder of workflow files, which tries a text, a list and a table in turn and takes
whatever is left as a literal.
-/

set_option autoImplicit false

namespace Runbook

inductive Template where
  | text (s : String)
  | list (items : List Template)
  | map (fields : List (String × Template))
  | literal (value : Json)
  deriving Inhabited

namespace Template

mutual

/-- The template value of the same shape. -/
def ofJson : Json → Template
  | .str s => .text s
  | .arr items => .list (ofItems items)
  | .obj fields => .map (ofFields fields)
  | .null => .literal .null
  | .bool b => .literal (.bool b)
  | .num n => .literal (.num n)

def ofItems : List Json → List Template
  | [] => []
  | v :: vs => ofJson v :: ofItems vs

def ofFields : List (String × Json) → List (String × Template)
  | [] => []
  | (k, v) :: rest => (k, ofJson v) :: ofFields rest

end

mutual

/-- The JSON value of the same shape. -/
def toJson : Template → Json
  | .text s => .str s
  | .list items => .arr (toItems items)
  | .map fields => .obj (toFields fields)
  | .literal v => v

def toItems : List Template → List Json
  | [] => []
  | t :: ts => toJson t :: toItems ts

def toFields : List (String × Template) → List (String × Json)
  | [] => []
  | (k, t) :: rest => (k, toJson t) :: toFields rest

end

mutual

/-- Every text in the template, depth first. -/
def texts : Template → List String
  | .text s => [s]
  | .list items => textsItems items
  | .map fields => textsFields fields
  | .literal _ => []

def textsItems : List Template → List String
  | [] => []
  | t :: ts => texts t ++ textsItems ts

def textsFields : List (String × Template) → List String
  | [] => []
  | (_, t) :: rest => texts t ++ textsFields rest

end

/-- A text, if the value is one. -/
def readText? : Json → Option Template
  | .str s => some (.text s)
  | _ => none

mutual

/-- Decodes a value: as a text, else as a list, else as a table, else as a literal. -/
def read (v : Json) : Template :=
  match readText? v with
  | some t => t
  | none =>
      match v with
      | .arr items => .list (readItems items)
      | .obj fields => .map (readFields fields)
      | v => .literal v

def readItems : List Json → List Template
  | [] => []
  | v :: vs => read v :: readItems vs

def readFields : List (String × Json) → List (String × Template)
  | [] => []
  | (k, v) :: rest => (k, read v) :: readFields rest

end

/-- The name of the outermost shape. -/
def shape : Template → String
  | .text _ => "text"
  | .list _ => "list"
  | .map _ => "map"
  | .literal _ => "literal"

mutual

/-- Equality of template values; the order of fields does not matter. -/
def same : Template → Template → Bool
  | .text a, .text b => a == b
  | .list xs, .list ys => sameItems xs ys
  | .map fs, .map gs => fs.length == gs.length && sameFields fs gs
  | .literal a, .literal b => a.same b
  | _, _ => false

def sameItems : List Template → List Template → Bool
  | [], [] => true
  | x :: xs, y :: ys => same x y && sameItems xs ys
  | _, _ => false

def sameFields : List (String × Template) → List (String × Template) → Bool
  | [], _ => true
  | (k, t) :: rest, gs =>
      (match Fields.get? k gs with
        | some u => same t u
        | none => false) && sameFields rest gs

end

end Template
end Runbook
