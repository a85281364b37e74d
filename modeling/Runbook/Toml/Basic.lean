import Runbook.Json.Basic

/-!
# TOML values

A document is a table. Tables come about in four ways, which decide how they may be extended: under
a header of their own, as a part of a longer header, by a dotted key, and inline. A name is given
a value once, and a table is closed once it has been written in a way that closes it.
-/

set_option autoImplicit false

namespace Runbook.Toml

/-- How a table came about. -/
inductive Origin where
  | header
  /-- As a part of a longer header. -/
  | implied
  | dotted
  | inline
  deriving DecidableEq, Repr

inductive Value where
  /-- A text, a number, a truth value, or a moment as its text. -/
  | scalar (v : Json)
  | list (items : List Value)
  /-- Tables under repeated headers. -/
  | tables (items : List (List (String × Value)))
  | table (origin : Origin) (fields : List (String × Value))
  deriving Inhabited

abbrev Table := Fields Value

mutual

/-- The value without the way in which its tables came about. -/
def Value.toJson : Value → Json
  | .scalar v => v
  | .list items => .arr (listToJson items)
  | .tables items => .arr (tablesToJson items)
  | .table _ fields => .obj (fieldsToJson fields)

def listToJson : List Value → List Json
  | [] => []
  | v :: vs => v.toJson :: listToJson vs

def tablesToJson : List (List (String × Value)) → List Json
  | [] => []
  | t :: ts => .obj (fieldsToJson t) :: tablesToJson ts

def fieldsToJson : List (String × Value) → List (String × Json)
  | [] => []
  | (k, v) :: rest => (k, v.toJson) :: fieldsToJson rest

end

/-! ## Extending tables -/

/-- Changes the table that a path leads to, which is made if it is missing. A dotted path does not
lead into tables that have a header of their own, and no path leads into inline tables or other
values. Of several tables under one header, the path leads into the last. -/
def within (dotted : Bool) (change : Origin → Table → Option Table) :
    (path : List String) → Origin → Table → Option Table
  | [], origin, t => change origin t
  | name :: path, _, t =>
      match Fields.get? name t with
      | none =>
          let origin := if dotted then Origin.dotted else .implied
          (within dotted change path origin []).map fun sub =>
            Fields.put name (.table origin sub) t
      | some (.table origin sub) =>
          if origin = .inline || (dotted && origin = .header) then none
          else
            (within dotted change path origin sub).map fun sub =>
              Fields.put name (.table origin sub) t
      | some (.tables ts) =>
          match ts.getLast? with
          | none => none
          | some last =>
              (within dotted change path .header last).map fun sub =>
                Fields.put name (.tables (ts.dropLast ++ [sub])) t
      | some _ => none

/-- Gives a value to a new name. A table that was not made by dotted keys is not extended by
them. -/
def assignHere (isDirect : Bool) (name : String) (v : Value) (origin : Origin) (t : Table) :
    Option Table :=
  if (origin == .dotted) == isDirect || Fields.has name t then none else some (Fields.put name v t)

/-- Gives a value to a dotted key. -/
def assign (path : List String) (name : String) (v : Value) (origin : Origin) (t : Table) :
    Option Table :=
  within true (assignHere path.isEmpty name v) path origin t

/-- Opens the table of a header. -/
def openTable (name : String) (_ : Origin) (t : Table) : Option Table :=
  match Fields.get? name t with
  | none => some (Fields.put name (.table .header []) t)
  | some (.table .implied sub) => some (Fields.put name (.table .header sub) t)
  | some _ => none

/-- Opens one more table of a repeated header. -/
def openNext (name : String) (_ : Origin) (t : Table) : Option Table :=
  match Fields.get? name t with
  | none => some (Fields.put name (.tables [[]]) t)
  | some (.tables ts) => some (Fields.put name (.tables (ts ++ [[]])) t)
  | some _ => none

end Runbook.Toml
