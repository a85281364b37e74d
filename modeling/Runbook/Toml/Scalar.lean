import Runbook.Decimal.Reading
import Runbook.Text.Cut
import Runbook.Text.Bytes
import Runbook.Toml.Basic

/-!
# TOML scalars

Texts are quoted with `"`, where a backslash escapes, or with `'`, where nothing does; three quotes
enclose several lines. Numbers are integers of 64 bits with a sign, in four bases, or
floating-point numbers. Moments are dates, times of day, or both.
-/

set_option autoImplicit false

namespace Runbook.Toml

/-- A space or a tab. -/
def isSpace (c : Char) : Bool := c = ' ' || c = '\t'

def skipSpaces (cs : List Char) : List Char := cs.dropWhile isSpace

/-- A character that a line may hold: no control characters other than the tab. -/
def isPlain (c : Char) : Bool := c = '\t' || (0x20 ≤ c.toNat && c.toNat ≠ 0x7F)

/-- The text behind a line break. -/
def afterBreak? : List Char → Option (List Char)
  | '\n' :: cs => some cs
  | '\r' :: '\n' :: cs => some cs
  | _ => none

/-! ## Texts -/

def isHexDigit (c : Char) : Bool :=
  Text.isDigit c || ('a' ≤ c && c ≤ 'f') || ('A' ≤ c && c ≤ 'F')

/-- The character of a number of hexadecimal digits. -/
def codePoint? (count : Nat) (cs : List Char) : Option (Char × List Char) :=
  let ds := cs.take count
  if ds.length = count && ds.all isHexDigit then
    let n := ds.foldl (fun n d => n * 16 + Hex.value d) 0
    if n.isValidChar then some (Char.ofNat n, cs.drop count) else none
  else none

/-- The character of an escape, behind the backslash. -/
def escape? : List Char → Option (Char × List Char)
  | 'b' :: cs => some ('\x08', cs)
  | 't' :: cs => some ('\t', cs)
  | 'n' :: cs => some ('\n', cs)
  | 'f' :: cs => some ('\x0c', cs)
  | 'r' :: cs => some ('\r', cs)
  | '"' :: cs => some ('"', cs)
  | '\\' :: cs => some ('\\', cs)
  | 'u' :: cs => codePoint? 4 cs
  | 'U' :: cs => codePoint? 8 cs
  | _ => none

/-- A text up to its closing quote. -/
def quoted : (fuel : Nat) → List Char → Option (List Char × List Char)
  | 0, _ => none
  | _ + 1, [] => none
  | _ + 1, '"' :: cs => some ([], cs)
  | fuel + 1, '\\' :: cs => do
      let (c, cs) ← escape? cs
      let (text, cs) ← quoted fuel cs
      return (c :: text, cs)
  | fuel + 1, c :: cs =>
      if isPlain c then do
        let (text, cs) ← quoted fuel cs
        return (c :: text, cs)
      else none

/-- A text without escapes, up to its closing quote. -/
def literal : List Char → Option (List Char × List Char)
  | [] => none
  | '\'' :: cs => some ([], cs)
  | c :: cs =>
      if isPlain c then (literal cs).map fun (text, cs) => (c :: text, cs) else none

/-- Without spaces and line breaks in front. -/
def skipGaps : (fuel : Nat) → List Char → List Char
  | 0, cs => cs
  | fuel + 1, cs =>
      let cs := skipSpaces cs
      match afterBreak? cs with
      | some cs => skipGaps fuel cs
      | none => cs

/-- The end of a text of several lines: up to two quotes that belong to the text, then three. -/
def closing? (quote : Char) (cs : List Char) : Option (List Char × List Char) :=
  let run := (cs.takeWhile (· = quote)).length
  if run < 3 then none
  else
    let kept := min 2 (run - 3)
    some (List.replicate kept quote, cs.drop (kept + 3))

/-- A text of several lines. With escapes, a backslash at the end of a line takes the line break and
all that is blank behind it away. -/
def block (quote : Char) (escapes : Bool) :
    (fuel : Nat) → List Char → Option (List Char × List Char)
  | 0, _ => none
  | fuel + 1, cs =>
      match closing? quote cs with
      | some r => some r
      | none =>
          match afterBreak? cs, cs with
          | some cs, _ => (block quote escapes fuel cs).map fun (text, cs) => ('\n' :: text, cs)
          | none, [] => none
          | none, c :: cs =>
              if escapes && c = '\\' then
                match afterBreak? (skipSpaces cs) with
                | some cs => block quote escapes fuel (skipGaps cs.length cs)
                | none => do
                    let (c, cs) ← escape? cs
                    let (text, cs) ← block quote escapes fuel cs
                    return (c :: text, cs)
              else if isPlain c then
                (block quote escapes fuel cs).map fun (text, cs) => (c :: text, cs)
              else none

/-- A text of several lines, without a line break right behind the opening quotes. -/
def blockText (quote : Char) (escapes : Bool) (cs : List Char) : Option (List Char × List Char) :=
  let cs := (afterBreak? cs).getD cs
  block quote escapes (cs.length + 1) cs

/-- A text of any kind. -/
def text? (cs : List Char) : Option (List Char × List Char) :=
  match cs with
  | '"' :: '"' :: '"' :: cs => blockText '"' true cs
  | '\'' :: '\'' :: '\'' :: cs => blockText '\'' false cs
  | '"' :: cs => quoted (cs.length + 1) cs
  | '\'' :: cs => literal cs
  | _ => none

/-! ## Numbers -/

/-- Digits that may be grouped by single underscores, without them. -/
def ungrouped? (isDigit : Char → Bool) : List Char → Option (List Char)
  | [] => none
  | [c] => if isDigit c then some [c] else none
  | c :: '_' :: cs =>
      if isDigit c then (ungrouped? isDigit cs).map (c :: ·) else none
  | c :: cs => if isDigit c then (ungrouped? isDigit cs).map (c :: ·) else none

/-- The sign, and what follows it. -/
def signed (cs : List Char) : Bool × List Char :=
  match cs with
  | '-' :: cs => (true, cs)
  | '+' :: cs => (false, cs)
  | cs => (false, cs)

/-- Decimal digits without a leading zero. -/
def decimalDigits? (cs : List Char) : Option (List Char) :=
  match ungrouped? Text.isDigit cs with
  | some ('0' :: _ :: _) => none
  | ds => ds

/-- An integer of 64 bits. -/
def inRange? (n : Int) : Option Json :=
  if -Int.pow 2 63 ≤ n ∧ n < Int.pow 2 63 then some (Json.int n) else none

/-- The number of digits in a base. -/
def based? (base : Nat) (isDigit : Char → Bool) (cs : List Char) : Option Json :=
  (ungrouped? isDigit cs).bind fun ds =>
    inRange? (ds.foldl (fun n d => n * base + Hex.value d) 0 : Nat)

def integer? (cs : List Char) : Option Json :=
  match cs with
  | '0' :: 'x' :: ds => based? 16 isHexDigit ds
  | '0' :: 'o' :: ds => based? 8 (fun c => '0' ≤ c && c ≤ '7') ds
  | '0' :: 'b' :: ds => based? 2 (fun c => c = '0' || c = '1') ds
  | cs =>
      let (negative, cs) := signed cs
      (decimalDigits? cs).bind fun ds =>
        let n : Int := Text.digitsValue ds
        inRange? (if negative then -n else n)

/-- Digits behind a point or in an exponent. -/
def digits? (cs : List Char) : Option (List Char) := ungrouped? Text.isDigit cs

/-- Cuts a number into its whole part, its fraction and its exponent. -/
def floatParts (cs : List Char) : List Char × Option (List Char) × Option (List Char) :=
  let isMark (c : Char) : Bool := c = 'e' || c = 'E'
  let front := cs.takeWhile fun c => !isMark c
  let exponent := match cs.dropWhile fun c => !isMark c with
    | _ :: e => some e
    | [] => none
  match Text.cutChars? '.' front with
  | some (whole, fraction) => (whole, some fraction, exponent)
  | none => (front, none, exponent)

/-- The digits of an exponent with their sign. -/
def exponentDigits? (cs : List Char) : Option (List Char) :=
  let (negative, cs) := signed cs
  (digits? cs).map fun ds => if negative then '-' :: ds else ds

/-- A floating-point number with a fraction, an exponent or both. -/
def float? (cs : List Char) : Option Json := do
  let (negative, cs) := signed cs
  if cs = "inf".toList then return .num (.float (if negative then -(1.0 / 0.0) else 1.0 / 0.0))
  if cs = "nan".toList then return .num (.float (0.0 / 0.0))
  let (whole, fraction, exponent) := floatParts cs
  let whole ← decimalDigits? whole
  let fraction ← match fraction with
    | some f => (digits? f).map some
    | none => some none
  let exponent ← match exponent with
    | some e => (exponentDigits? e).map some
    | none => some none
  if fraction.isNone && exponent.isNone then none
  else
    let sign := if negative then ['-'] else []
    let x ← Decimal.read? (sign ++ whole ++ ((fraction.map ('.' :: ·)).getD []) ++
      ((exponent.map ('e' :: ·)).getD []))
    if x.isInf && !negative then none else return .num (.float x)

/-! ## Moments -/

/-- A number of exactly that many digits within bounds, and a mark behind it if one is given. -/
def part? (width low high : Nat) (cs : List Char) : Option (Nat × List Char) :=
  let ds := cs.take width
  if ds.length = width && ds.all Text.isDigit then
    let n := Text.digitsValue ds
    if low ≤ n && n ≤ high then some (n, cs.drop width) else none
  else none

def mark? (c : Char) : List Char → Option (List Char)
  | d :: cs => if c = d then some cs else none
  | [] => none

def isLeap (year : Nat) : Bool := (year % 4 = 0 && year % 100 ≠ 0) || year % 400 = 0

def daysIn (year month : Nat) : Nat :=
  if month = 2 then (if isLeap year then 29 else 28)
  else if month = 4 || month = 6 || month = 9 || month = 11 then 30
  else 31

/-- The text behind a date. -/
def afterDate? (cs : List Char) : Option (List Char) := do
  let (year, cs) ← part? 4 0 9999 cs
  let cs ← mark? '-' cs
  let (month, cs) ← part? 2 1 12 cs
  let cs ← mark? '-' cs
  let (_, cs) ← part? 2 1 (daysIn year month) cs
  return cs

/-- The text behind a time of day. -/
def afterTime? (cs : List Char) : Option (List Char) := do
  let (_, cs) ← part? 2 0 23 cs
  let cs ← mark? ':' cs
  let (_, cs) ← part? 2 0 59 cs
  let cs ← mark? ':' cs
  let (_, cs) ← part? 2 0 60 cs
  match cs with
  | '.' :: rest =>
      match rest.takeWhile Text.isDigit with
      | [] => none
      | _ :: _ => return rest.dropWhile Text.isDigit
  | cs => return cs

/-- The text behind the distance to UTC, if there is one. -/
def afterOffset? (cs : List Char) : Option (List Char) :=
  match cs with
  | 'Z' :: cs => some cs
  | 'z' :: cs => some cs
  | c :: rest =>
      if c = '+' || c = '-' then do
        let (_, cs) ← part? 2 0 23 rest
        let cs ← mark? ':' cs
        let (_, cs) ← part? 2 0 59 cs
        return cs
      else some cs
  | [] => some []

/-- The text behind a date, which may be followed by a time. -/
def afterDateTime? (cs : List Char) : Option (List Char) :=
  match afterDate? cs with
  | none => none
  | some cs =>
      match cs with
      | c :: d :: rest =>
          if c = 'T' || c = 't' || (c = ' ' && Text.isDigit d) then
            (afterTime? (d :: rest)).bind afterOffset?
          else some cs
      | cs => some cs

/-- A moment, as its text. -/
def moment? (cs : List Char) : Option (Json × List Char) :=
  ((afterDateTime? cs).or (afterTime? cs)).map fun rest =>
    (.str (String.ofList (cs.take (cs.length - rest.length))), rest)

/-! ## Scalars -/

/-- A character of a number or a name. -/
def isWord (c : Char) : Bool :=
  Text.isDigit c || ('a' ≤ c && c ≤ 'z') || ('A' ≤ c && c ≤ 'Z') || c = '_' || c = '-'

/-- The value of a word. -/
def word? (cs : List Char) : Option Json :=
  if cs = "true".toList then some (.bool true)
  else if cs = "false".toList then some (.bool false)
  else (integer? cs).or (float? cs)

/-- A scalar of any kind. -/
def scalar? (cs : List Char) : Option (Json × List Char) :=
  match text? cs with
  | some (s, cs) => some (.str (String.ofList s), cs)
  | none =>
      match moment? cs with
      | some r => some r
      | none =>
          let isPart (c : Char) : Bool := isWord c || c = '.' || c = '+'
          (word? (cs.takeWhile isPart)).map fun v => (v, cs.dropWhile isPart)

end Runbook.Toml
