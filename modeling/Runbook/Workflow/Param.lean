import Runbook.Json.Decode

/-!
# Declared parameters

A workflow declares its parameters in order. A parameter without a default must be provided.

Workflow files spell the list in three ways: a list of names, of one-entry tables from a name to a
default or a description of it, and of tables with a `name`; or one table from names to defaults.
A table under a name describes the parameter when its keys are all among `default`,
`description` and `required`, and is a default value otherwise.
-/

set_option autoImplicit false

namespace Runbook

structure Param where
  name : String
  default : Option Json
  description : Option String

namespace Param

/-- A parameter that must be provided. -/
def mandatory (name : String) : Param := ⟨name, none, none⟩

/-- No default: the parameter must be provided. -/
def isRequired (p : Param) : Bool := p.default.isNone

/-- The keys that describe a parameter under its name. -/
def describingKeys : List String := ["default", "description", "required"]

/-- The keys that describe a parameter in a table of its own. -/
def specKeys : List String := "name" :: describingKeys

/-- The parameter that a describing table stands for; a default of null is none. -/
def ofDescription (name : String) (fs : Fields Json) : Param :=
  let required := ((Fields.get? "required" fs).bind Json.bool?).getD false
  let default := (Fields.get? "default" fs).filter fun v => !v.isNull
  { name
    default := if required then none else default
    description := (Fields.get? "description" fs).bind Json.str? }

/-- The parameter that a name and what stands under it mean. -/
def ofEntry (name : String) (v : Json) : Param :=
  match v with
  | .null => mandatory name
  | .obj fs =>
      if !fs.isEmpty && (Fields.names fs).all describingKeys.contains then ofDescription name fs
      else ⟨name, some v, none⟩
  | v => ⟨name, some v, none⟩

/-- The parameter that a table with a name of its own means. -/
def ofNamed (name : String) (fs : Fields Json) : Except DecodeError Param :=
  match (Fields.names fs).find? fun k => !specKeys.contains k with
  | some k => .error (.invalid s!"unknown parameter field '{k}'")
  | none => .ok (ofDescription name fs)

/-- The parameter that an item of a list means. -/
def ofItem (v : Json) : Except DecodeError Param :=
  let bad : Except DecodeError Param :=
    .error (.invalid s!"invalid parameter entry: {v.compress}")
  match v with
  | .str name => .ok (mandatory name)
  | .obj fs =>
      match Fields.get? "name" fs with
      | some (.str name) => ofNamed name fs
      | _ =>
          match fs with
          | [(name, v)] => .ok (ofEntry name v)
          | _ => bad
  | _ => bad

/-- Reads a parameter list in any of its spellings. -/
def decodeList : Decoder (List Param)
  | .null => .ok []
  | .arr items => Decode.itemsWith ofItem items
  | .obj fs => .ok (fs.map fun e => ofEntry e.1 e.2)
  | v => .error (.invalid s!"params must be a list or a map, got {v.compress}")

/-- The table with `name`, and `default` and `description` where there are any. -/
def encode (p : Param) : Json :=
  .obj (Encode.field "name" (.str p.name) ++ Encode.optional "default" p.default ++
    Encode.optional "description" (p.description.map .str))

end Param
end Runbook
