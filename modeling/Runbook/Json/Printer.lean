import Runbook.Json.Basic
import Runbook.Decimal.Shortest

/-!
# The text of a JSON value

Two layouts: compact, with no blanks at all, and pretty, with two spaces of indentation. In both,
a text escapes the quote, the backslash and the control characters below U+0020, and nothing else;
floating-point numbers have their shortest decimals, and those that are not finite are null.
-/

set_option autoImplicit false

namespace Runbook

/-- The text of a finite number; `null` for the others. -/
def Number.render : Number → String
  | .int n => toString n
  | .float x => if x.isFinite then Decimal.render64 x else "null"

namespace Json

/-- A hexadecimal digit in lower case. -/
def hexDigit (n : Nat) : Char :=
  if n < 10 then Char.ofNat (48 + n) else Char.ofNat (87 + n)

/-- A character as it stands inside quotes. -/
def escapeChar (c : Char) : List Char :=
  if c = '"' then ['\\', '"']
  else if c = '\\' then ['\\', '\\']
  else if c.toNat ≥ 0x20 then [c]
  else if c.toNat = 0x08 then ['\\', 'b']
  else if c.toNat = 0x09 then ['\\', 't']
  else if c.toNat = 0x0A then ['\\', 'n']
  else if c.toNat = 0x0C then ['\\', 'f']
  else if c.toNat = 0x0D then ['\\', 'r']
  else ['\\', 'u', '0', '0', hexDigit (c.toNat / 16), hexDigit (c.toNat % 16)]

/-- The text between quotes, escaped. -/
def quote (s : String) : String :=
  (s.foldl (fun acc c => (escapeChar c).foldl String.push acc) "\"").push '"'

mutual

/-- The compact text. -/
def compress : Json → String
  | .null => "null"
  | .bool true => "true"
  | .bool false => "false"
  | .num n => n.render
  | .str s => quote s
  | .arr xs => "[" ++ String.intercalate "," (compressItems xs) ++ "]"
  | .obj fs => "\x7b" ++ String.intercalate "," (compressFields fs) ++ "\x7d"

def compressItems : List Json → List String
  | [] => []
  | x :: xs => compress x :: compressItems xs

def compressFields : List (String × Json) → List String
  | [] => []
  | (k, v) :: rest => (quote k ++ ":" ++ compress v) :: compressFields rest

end

/-- A line break and the indentation of a level. -/
def newline (level : Nat) : String := "\n" ++ String.ofList (List.replicate (2 * level) ' ')

mutual

/-- The pretty text of a value that stands at the given level. -/
def prettyAt (level : Nat) : Json → String
  | .arr [] => "[]"
  | .obj [] => "\x7b\x7d"
  | .arr xs =>
      "[" ++ newline (level + 1) ++
        String.intercalate ("," ++ newline (level + 1)) (prettyItems (level + 1) xs) ++
        newline level ++ "]"
  | .obj fs =>
      "\x7b" ++ newline (level + 1) ++
        String.intercalate ("," ++ newline (level + 1)) (prettyFields (level + 1) fs) ++
        newline level ++ "\x7d"
  | .null => "null"
  | .bool true => "true"
  | .bool false => "false"
  | .num n => n.render
  | .str s => quote s

def prettyItems (level : Nat) : List Json → List String
  | [] => []
  | x :: xs => prettyAt level x :: prettyItems level xs

def prettyFields (level : Nat) : List (String × Json) → List String
  | [] => []
  | (k, v) :: rest => (quote k ++ ": " ++ prettyAt level v) :: prettyFields level rest

end

/-- The pretty text. -/
def pretty (v : Json) : String := prettyAt 0 v

/-- The text that a value contributes to prose: a text stands for itself, null for nothing, and
all else for its compact form. -/
def display : Json → String
  | .str s => s
  | .null => ""
  | v => compress v

end Json
end Runbook
