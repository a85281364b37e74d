import Runbook.Json.Fields

/-!
# JSON values

A value is a scalar, a list of values or an ordered table of values. Numbers keep apart integers
(from `-2^63` to `2^64 - 1`) and 64-bit floating-point numbers: `1` and `1.0` are different values
with different texts.
-/

set_option autoImplicit false

namespace Runbook

/-- A number: an integer of at most 64 bits, or a floating-point number. -/
inductive Number where
  | int (n : Int)
  | float (x : Float)
  deriving Inhabited

inductive Json where
  | null
  | bool (b : Bool)
  | num (n : Number)
  | str (s : String)
  | arr (items : List Json)
  | obj (fields : List (String × Json))
  deriving Inhabited

namespace Number

/-- The number as an unsigned 64-bit integer. -/
def toNat? : Number → Option Nat
  | .int n => if 0 ≤ n then some n.toNat else none
  | .float _ => none

/-- The number as a floating-point number, rounded if it has more than 53 bits. -/
def toFloat : Number → Float
  | .int n => if 0 ≤ n then n.toNat.toUInt64.toFloat else -((-n).toNat.toUInt64.toFloat)
  | .float x => x

/-- Numerical equality within a kind; an integer never equals a floating-point number. -/
def same : Number → Number → Bool
  | .int a, .int b => a == b
  | .float a, .float b => a == b
  | _, _ => false

end Number

namespace Json

/-- A natural number as a value. -/
def nat (n : Nat) : Json := .num (.int n)

/-- An integer as a value. -/
def int (n : Int) : Json := .num (.int n)

/-- The value, or null. -/
def ofOption : Option Json → Json
  | none => .null
  | some v => v

/-- A text, or null. -/
def ofText? (s : Option String) : Json := ofOption (s.map .str)

def isNull : Json → Bool
  | .null => true
  | _ => false

def isStr : Json → Bool
  | .str _ => true
  | _ => false

def str? : Json → Option String
  | .str s => some s
  | _ => none

def bool? : Json → Option Bool
  | .bool b => some b
  | _ => none

def nat? : Json → Option Nat
  | .num n => n.toNat?
  | _ => none

def arr? : Json → Option (List Json)
  | .arr xs => some xs
  | _ => none

def obj? : Json → Option (Fields Json)
  | .obj fs => some fs
  | _ => none

/-- The value of a field, if the value is a table that has it. -/
def field? (name : String) : Json → Option Json
  | .obj fs => Fields.get? name fs
  | _ => none

mutual

/-- Equality of values; the order of fields does not matter, their number does. -/
def same : Json → Json → Bool
  | .null, .null => true
  | .bool a, .bool b => a == b
  | .num a, .num b => a.same b
  | .str a, .str b => a == b
  | .arr xs, .arr ys => sameItems xs ys
  | .obj fs, .obj gs => fs.length == gs.length && sameFields fs gs
  | _, _ => false

def sameItems : List Json → List Json → Bool
  | [], [] => true
  | x :: xs, y :: ys => same x y && sameItems xs ys
  | _, _ => false

/-- Every field of the first table has an equal one of its name in the second. -/
def sameFields : List (String × Json) → List (String × Json) → Bool
  | [], _ => true
  | (k, v) :: rest, gs =>
      (match Fields.get? k gs with
        | some w => same v w
        | none => false) && sameFields rest gs

end

end Json
end Runbook
