/-!
# A place in a document

A cursor is the rest of the text with the line, the column and the index of its first character.
Line breaks of every kind have been made line feeds, apart from the line and paragraph separators,
which stay what they are and are breaks too. So a break is always one character.
-/

set_option autoImplicit false

namespace Runbook.Yaml

/-- Line feeds for all breaks but the line and paragraph separators. -/
def unifyBreaks : List Char → List Char
  | '\r' :: '\n' :: cs => '\n' :: unifyBreaks cs
  | '\r' :: cs => '\n' :: unifyBreaks cs
  | '\u0085' :: cs => '\n' :: unifyBreaks cs
  | c :: cs => c :: unifyBreaks cs
  | [] => []

/-- A character that a document may hold: no control characters other than tab and breaks, no
byte order mark, no noncharacters at the end of the basic plane. -/
def isPermitted (c : Char) : Bool :=
  let n := c.toNat
  n = 0x09 || n = 0x0A || n = 0x0D || (0x20 ≤ n && n ≤ 0x7E) || n = 0x85 ||
    (0xA0 ≤ n && n ≤ 0xD7FF) || (0xE000 ≤ n && n ≤ 0xFFFD && n ≠ 0xFEFF) || 0x10000 ≤ n

/-- A break, after breaks have been unified. -/
def isBreak (c : Char) : Bool := c = '\n' || c = '\u2028' || c = '\u2029'

/-- A space or a tab. -/
def isSpace (c : Char) : Bool := c = ' ' || c = '\t'

/-- White space of either kind. -/
def isGap (c : Char) : Bool := isSpace c || isBreak c

/-- Letters, digits, underscore and hyphen: the characters of names. -/
def isWord (c : Char) : Bool := c.isAlphanum || c = '_' || c = '-'

/-- The text is at its end or at white space. -/
def atGap : List Char → Bool
  | [] => true
  | c :: _ => isGap c

structure Mark where
  line : Nat := 0
  column : Nat := 0
  index : Nat := 0
  deriving DecidableEq, Repr

/-- The place behind a character. -/
def Mark.after (m : Mark) (c : Char) : Mark :=
  if isBreak c then ⟨m.line + 1, 0, m.index + 1⟩ else ⟨m.line, m.column + 1, m.index + 1⟩

structure Cursor where
  mark : Mark
  rest : List Char

namespace Cursor

/-- The start of a text. -/
def start (cs : List Char) : Cursor := ⟨{}, cs⟩

def column (c : Cursor) : Nat := c.mark.column

/-- The next character, if there is one. -/
def head? (c : Cursor) : Option Char := c.rest.head?

/-- Without the first `n` characters. -/
def drop : Nat → Cursor → Cursor
  | 0, c => c
  | n + 1, ⟨m, x :: xs⟩ => drop n ⟨m.after x, xs⟩
  | _ + 1, ⟨m, []⟩ => ⟨m, []⟩

/-- The characters in front that satisfy the test, and the place behind them. -/
def span (test : Char → Bool) (c : Cursor) : List Char × Cursor :=
  let cs := c.rest.takeWhile test
  (cs, c.drop cs.length)

/-- The place behind the characters in front that satisfy the test. -/
def skip (test : Char → Bool) (c : Cursor) : Cursor := (c.span test).2

/-- Three equal marks at the start of a line that stand alone delimit documents. -/
def atDelimiter (mark : Char) (c : Cursor) : Bool :=
  c.column = 0 &&
    match c.rest with
    | a :: b :: d :: r => a = mark && b = mark && d = mark && atGap r
    | _ => false

/-- At the start or at the end mark of a document. -/
def atDocumentMark (c : Cursor) : Bool := c.atDelimiter '-' || c.atDelimiter '.'

end Cursor
end Runbook.Yaml
