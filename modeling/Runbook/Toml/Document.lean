import Runbook.Toml.Scalar

/-!
# TOML documents

A document is a sequence of lines: headers, which say which table the following lines are about,
and names with values. Lists may span several lines and hold comments; inline tables may not.
-/

set_option autoImplicit false

namespace Runbook.Toml

/-! ## Keys -/

/-- A name, bare or quoted on one line. -/
def simpleKey? (cs : List Char) : Option (String × List Char) :=
  match cs with
  | '"' :: cs => (quoted (cs.length + 1) cs).map fun (s, cs) => (String.ofList s, cs)
  | '\'' :: cs => (literal cs).map fun (s, cs) => (String.ofList s, cs)
  | cs =>
      match cs.takeWhile isWord with
      | [] => none
      | name => some (String.ofList name, cs.dropWhile isWord)

/-- Names with points between them, with the spaces around. -/
def keyPath? : (fuel : Nat) → List Char → Option (List String × List Char)
  | 0, _ => none
  | fuel + 1, cs => do
      let (name, cs) ← simpleKey? (skipSpaces cs)
      match skipSpaces cs with
      | '.' :: cs => do
          let (path, cs) ← keyPath? fuel cs
          return (name :: path, cs)
      | cs => return ([name], cs)

/-- How many names a key may have, and how deep values may nest. -/
def depthBound : Nat := 79

def key? (cs : List Char) : Option (List String × List Char) := keyPath? depthBound cs

/-! ## Values -/

/-- The text behind a comment, if there is one; its line has to be plain. -/
def afterComment? (cs : List Char) : Option (List Char) :=
  match cs with
  | '#' :: cs =>
      let isEnd (c : Char) : Bool := c = '\n' || c = '\r'
      if (cs.takeWhile fun c => !isEnd c).all isPlain then some (cs.dropWhile fun c => !isEnd c)
      else none
  | cs => some cs

/-- The text behind spaces, line breaks and comments. -/
def afterGaps? : (fuel : Nat) → List Char → Option (List Char)
  | 0, cs => some cs
  | fuel + 1, cs =>
      match afterComment? (skipSpaces cs) with
      | none => none
      | some cs =>
          match afterBreak? cs with
          | some cs => afterGaps? fuel cs
          | none => some cs

/-- What reads a value from the front of a text. -/
abbrev ValueReader := List Char → Option (Value × List Char)

/-- The items of a list up to its closing bracket. -/
def items (value : ValueReader) : (fuel : Nat) → List Char → Option (List Value × List Char)
  | 0, _ => none
  | fuel + 1, cs => do
      match ← afterGaps? cs.length cs with
      | ']' :: cs => return ([], cs)
      | cs =>
          let (v, cs) ← value cs
          match ← afterGaps? cs.length cs with
          | ',' :: cs => do
              let (vs, cs) ← items value fuel cs
              return (v :: vs, cs)
          | ']' :: cs => return ([v], cs)
          | _ => none

/-- A key with its value. -/
def pair? (value : ValueReader) (cs : List Char) :
    Option ((List String × Value) × List Char) := do
  let (path, cs) ← key? cs
  match cs with
  | '=' :: cs => do
      let (v, cs) ← value (skipSpaces cs)
      return ((path, v), skipSpaces cs)
  | _ => none

/-- Gives a value to a key of one or more names. -/
def assignPath (path : List String) (v : Value) (origin : Origin) (t : Table) : Option Table :=
  match path.getLast? with
  | some name => assign path.dropLast name v origin t
  | none => none

/-- The pairs of an inline table up to its closing brace. -/
def pairs (value : ValueReader) :
    (fuel : Nat) → Table → List Char → Option (Table × List Char)
  | 0, _, _ => none
  | fuel + 1, t, cs => do
      let ((path, v), cs) ← pair? value cs
      let t ← assignPath path v .inline t
      match cs with
      | ',' :: cs => pairs value fuel t cs
      | '\x7d' :: cs => return (t, cs)
      | _ => none

/-- A value that nests at most that deep. -/
def value? : (depth : Nat) → ValueReader
  | 0, cs =>
      match cs with
      | '[' :: _ => none
      | '\x7b' :: _ => none
      | cs => (scalar? cs).map fun (v, cs) => (.scalar v, cs)
  | depth + 1, cs =>
      match cs with
      | '[' :: cs => (items (value? depth) (cs.length + 1) cs).map fun (vs, cs) => (.list vs, cs)
      | '\x7b' :: cs =>
          match skipSpaces cs with
          | '\x7d' :: cs => some (.table .inline [], cs)
          | cs =>
              (pairs (value? depth) (cs.length + 1) [] cs).map fun (t, cs) => (.table .inline t, cs)
      | cs => (scalar? cs).map fun (v, cs) => (.scalar v, cs)

/-! ## Lines -/

inductive Line where
  | header (path : List String)
  | repeated (path : List String)
  | pair (path : List String) (v : Value)
  | blank

/-- The text behind the rest of a line that holds nothing more. -/
def afterLine? (cs : List Char) : Option (List Char) :=
  match afterComment? (skipSpaces cs) with
  | none => none
  | some [] => some []
  | some cs => afterBreak? cs

def line? (cs : List Char) : Option (Line × List Char) :=
  match skipSpaces cs with
  | [] => some (.blank, [])
  | '[' :: '[' :: cs => do
      let (path, cs) ← key? cs
      match cs with
      | ']' :: ']' :: cs => return (.repeated path, cs)
      | _ => none
  | '[' :: cs => do
      let (path, cs) ← key? cs
      match cs with
      | ']' :: cs => return (.header path, cs)
      | _ => none
  | c :: cs =>
      if c = '#' || c = '\n' || c = '\r' then some (.blank, c :: cs)
      else do
        let ((path, v), cs) ← pair? (value? depthBound) (c :: cs)
        return (.pair path v, cs)

/-- A document in progress: its table, and the path of the table that lines are about. -/
structure Progress where
  root : Table := []
  current : List String := []

def Progress.add (p : Progress) : Line → Option Progress
  | .blank => some p
  | .header path => do
      let name ← path.getLast?
      let root ← within false (openTable name) path.dropLast .header p.root
      return { root, current := path }
  | .repeated path => do
      let name ← path.getLast?
      let root ← within false (openNext name) path.dropLast .header p.root
      return { root, current := path }
  | .pair path v => do
      let root ← within false (assignPath path v) p.current .header p.root
      return { p with root }

def lines : (fuel : Nat) → Progress → List Char → Option Progress
  | 0, p, _ => some p
  | _ + 1, p, [] => some p
  | fuel + 1, p, c :: cs => do
      let (line, cs) ← line? (c :: cs)
      let p ← p.add line
      lines fuel p (← afterLine? cs)

/-- Without a byte order mark in front. -/
def dropMark (cs : List Char) : List Char :=
  match cs with
  | '\ufeff' :: cs => cs
  | cs => cs

/-- The table of a document, if it is one. -/
def parse? (s : String) : Option Json :=
  let cs := dropMark s.toList
  (lines (cs.length + 1) {} cs).map fun p => .obj (fieldsToJson p.root)

end Runbook.Toml
