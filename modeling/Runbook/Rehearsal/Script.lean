import Runbook.Json.Basic

/-!
# Scripts

A script is a JSON table that says what is to happen in a rehearsal. It is read without complaint:
a field that is missing or of another kind counts as an empty one.
-/

set_option autoImplicit false

namespace Runbook.Rehearsal

def field (script : Json) (name : String) : Json := (script.field? name).getD .null

def str? (script : Json) (name : String) : Option String := (field script name).str?

def str (script : Json) (name : String) : String := (str? script name).getD ""

def nat? (script : Json) (name : String) : Option Nat := (field script name).nat?

def nat (script : Json) (name : String) : Nat := (nat? script name).getD 0

def flag (script : Json) (name : String) : Bool := ((field script name).bool?).getD false

def items (script : Json) (name : String) : List Json := ((field script name).arr?).getD []

def table? (script : Json) (name : String) : Option (Fields Json) := (field script name).obj?

def table (script : Json) (name : String) : Fields Json := (table? script name).getD []

/-- The texts among the items of a field. -/
def texts (script : Json) (name : String) : List String :=
  (items script name).filterMap Json.str?

end Runbook.Rehearsal
