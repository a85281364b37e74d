import Runbook.Text.Numeral
import Runbook.Yaml.Token.Scalar

/-!
# From text to tokens

Whether a scalar is a key shows only at the colon behind it, and so does the start of a block
mapping. So wherever a key may start, the lexer leaves an empty slot among its tokens; a colon
fills the slot of the last such place with `key`, and with `blockMapping` in front of it when the
key opens a mapping. A place is given up when the line ends or after 1024 characters.
-/

set_option autoImplicit false

namespace Runbook.Yaml

/-- A place where a key may start. -/
structure KeyPlace where
  slot : Nat
  mark : Mark
  /-- At the indentation of the enclosing mapping nothing but a key may stand. -/
  required : Bool

structure Lexer where
  cursor : Cursor
  /-- The tokens so far; a slot that no colon has filled is empty. -/
  slots : Array (List Token) := #[]
  /-- The place in the block context, below one for each open flow collection. -/
  place : Option KeyPlace := none
  outer : List (Option KeyPlace) := []
  /-- The indentation of the innermost block collection, -1 outside of all. -/
  indent : Int := -1
  indents : List Int := []
  keyAllowed : Bool := true

namespace Lexer

def inFlow (s : Lexer) : Bool := !s.outer.isEmpty

def emit (s : Lexer) (t : Token) : Lexer := { s with slots := s.slots.push [t] }

/-- Reads a mark of `n` characters as the token. -/
def mark (s : Lexer) (n : Nat) (t : Token) : Lexer :=
  { s.emit t with cursor := s.cursor.drop n }

/-! ## White space -/

/-- Passes over white space and comments. A break outside flow collections allows a key, and
where a key is allowed a tab is not passed over. -/
def gap (inFlow allowed inComment : Bool) (m : Mark) : List Char → Bool × Cursor
  | [] => (allowed, ⟨m, []⟩)
  | c :: cs =>
      if isBreak c then gap inFlow (allowed || !inFlow) false (m.after c) cs
      else if inComment then gap inFlow allowed true (m.after c) cs
      else if c = ' ' || (c = '\t' && (inFlow || !allowed)) then
        gap inFlow allowed false (m.after c) cs
      else if c = '#' then gap inFlow allowed true (m.after c) cs
      else (allowed, ⟨m, c :: cs⟩)

def skipGap (s : Lexer) : Lexer :=
  let (keyAllowed, cursor) := gap s.inFlow s.keyAllowed false s.cursor.mark s.cursor.rest
  { s with keyAllowed, cursor }

/-! ## Places of keys -/

def KeyPlace.isStale (p : KeyPlace) (m : Mark) : Bool :=
  p.mark.line < m.line || p.mark.index + 1024 < m.index

/-- Gives up a place; a required one is a fault. -/
def giveUp : Option KeyPlace → Except Fault (Option KeyPlace)
  | none => .ok none
  | some p => if p.required then .error (.expected "':'") else .ok none

/-- Gives up a place that is too far behind. -/
def refresh (m : Mark) : Option KeyPlace → Except Fault (Option KeyPlace)
  | none => .ok none
  | some p => if KeyPlace.isStale p m then giveUp (some p) else .ok (some p)

def refreshAll (s : Lexer) : Except Fault Lexer := do
  return { s with
    place := ← refresh s.cursor.mark s.place
    outer := ← s.outer.mapM (refresh s.cursor.mark) }

def forget (s : Lexer) : Except Fault Lexer := do return { s with place := ← giveUp s.place }

/-- Leaves a slot if a key may start here. -/
def savePlace (s : Lexer) : Except Fault Lexer :=
  if !s.keyAllowed then .ok s
  else do
    let s ← s.forget
    let required := !s.inFlow && s.indent = s.cursor.column
    return { s with
      place := some ⟨s.slots.size, s.cursor.mark, required⟩
      slots := s.slots.push [] }

/-! ## Indentation -/

/-- Ends the block collections that are indented further than the column. -/
def closeBlocks (indent : Int) (indents : List Int) (column : Int) : Nat × Int × List Int :=
  if indent ≤ column then (0, indent, indents)
  else
    match indents with
    | [] => (1, -1, [])
    | i :: is =>
        let (n, r) := closeBlocks i is column
        (n + 1, r)

def unindent (s : Lexer) (column : Int) : Lexer :=
  if s.inFlow then s
  else
    let (n, indent, indents) := closeBlocks s.indent s.indents column
    { s with indent, indents, slots := s.slots ++ Array.replicate n [.blockEnd] }

/-- The collection is new at this column. -/
def opensAt (s : Lexer) (column : Nat) : Bool := !s.inFlow && s.indent < column

/-- Takes a deeper column as the indentation. -/
def indentTo (s : Lexer) (column : Nat) : Lexer :=
  if s.opensAt column then { s with indent := column, indents := s.indent :: s.indents } else s

/-- Opens a block collection at the current column if it is new. -/
def openBlock (s : Lexer) (t : Token) : Lexer :=
  let column := s.cursor.column
  if s.opensAt column then (s.indentTo column).emit t else s

/-! ## Marks -/

/-- Ends the blocks and gives up the key before something that stands between documents. -/
def betweenDocuments (s : Lexer) : Except Fault Lexer := do
  let s ← (s.unindent (-1)).forget
  return { s with keyAllowed := false }

def openFlow (s : Lexer) (t : Token) : Except Fault Lexer := do
  let s ← s.savePlace
  let s := { s with outer := s.place :: s.outer, place := none, keyAllowed := true }
  return s.mark 1 t

def closeFlow (s : Lexer) (t : Token) : Except Fault Lexer := do
  let s ← s.forget
  let s := match s.outer with
    | [] => s
    | p :: ps => { s with place := p, outer := ps }
  return { s with keyAllowed := false }.mark 1 t

def flowEntry (s : Lexer) : Except Fault Lexer := do
  let s ← s.forget
  return { s with keyAllowed := true }.mark 1 .flowEntry

/-- Marks that open a block collection stand where a key may stand. -/
def requireKeyAllowed (s : Lexer) (what : String) : Except Fault Unit :=
  if s.inFlow || s.keyAllowed then .ok () else .error (.misplaced what)

def blockEntry (s : Lexer) : Except Fault Lexer := do
  s.requireKeyAllowed "block sequence entries"
  let s ← (s.openBlock .blockSequence).forget
  return { s with keyAllowed := true }.mark 1 .blockEntry

def explicitKey (s : Lexer) : Except Fault Lexer := do
  s.requireKeyAllowed "mapping keys"
  let s ← (s.openBlock .blockMapping).forget
  return { s with keyAllowed := !s.inFlow }.mark 1 .key

/-- A colon makes what stands at the last place a key. -/
def value (s : Lexer) : Except Fault Lexer :=
  match s.place with
  | some p =>
      let column := p.mark.column
      let filled := if s.opensAt column then [Token.blockMapping, .key] else [.key]
      let s := s.indentTo column
      .ok ({ s with
        slots := s.slots.setIfInBounds p.slot filled
        place := none
        keyAllowed := false }.mark 1 .value)
  | none => do
      s.requireKeyAllowed "mapping values"
      let s := s.openBlock .blockMapping
      return { s with keyAllowed := !s.inFlow }.mark 1 .value

/-! ## Names, tags and directives -/

/-- An anchor or an alias. -/
def name (s : Lexer) (token : String → Token) : Except Fault Lexer := do
  let s ← s.savePlace
  let (cs, c) := (s.cursor.drop 1).span isWord
  let ends := c.rest.head?.all fun x => isGap x || "?:,]\x7d%@`".contains x
  if cs.isEmpty || !ends then .error .badName
  else return { s with cursor := c, keyAllowed := false }.emit (token (String.ofList cs))

/-- A character of a tag; inside `<` and `>` a few more are admitted. -/
def isTagChar (verbatim : Bool) (c : Char) : Bool :=
  isWord c || ";/?:@&=+$.!~*'()%".contains c || (verbatim && ",[]".contains c)

/-- The bytes of the escapes in front: a percent sign and two hexadecimal digits each. -/
def escapedByte? : List Char → Option Nat
  | '%' :: a :: b :: _ => do return (← hexValue? a) * 16 + (← hexValue? b)
  | _ => none

/-- The number of bytes of a character that starts with this byte, and its share of the value. -/
def leadingByte? (b : Nat) : Option (Nat × Nat) :=
  if b < 0x80 then some (1, b)
  else if 0xC0 ≤ b ∧ b < 0xE0 then some (2, b - 0xC0)
  else if 0xE0 ≤ b ∧ b < 0xF0 then some (3, b - 0xE0)
  else if 0xF0 ≤ b ∧ b < 0xF8 then some (4, b - 0xF0)
  else none

/-- The value of `n` continuing bytes behind the value so far. -/
def continuedBytes : Nat → Nat → List Char → Option (Nat × List Char)
  | 0, v, cs => some (v, cs)
  | n + 1, v, cs =>
      match escapedByte? cs with
      | some b =>
          if 0x80 ≤ b ∧ b < 0xC0 then continuedBytes n (v * 64 + (b - 0x80)) (cs.drop 3) else none
      | none => none

/-- The text of a tag with its escapes decoded. -/
def unescaped : (fuel : Nat) → List Char → Except Fault (List Char)
  | 0, _ => .ok []
  | _ + 1, [] => .ok []
  | fuel + 1, c :: cs =>
      if c ≠ '%' then do return c :: (← unescaped fuel cs)
      else
        match (escapedByte? (c :: cs)).bind leadingByte? with
        | none => .error .badTag
        | some (width, v) =>
            match continuedBytes (width - 1) v (cs.drop 2) with
            | none => .error .badTag
            | some (v, rest) => do return Char.ofNat v :: (← unescaped fuel rest)

/-- The text of a tag at the cursor, and the place behind it. -/
def tagText (verbatim : Bool) (c : Cursor) : Except Fault (String × Cursor) := do
  let (cs, c) := c.span (isTagChar verbatim)
  return (String.ofList (← unescaped cs.length cs), c)

/-- A tag handle at the cursor: `!`, or a word with `!` on either side. -/
def tagHandle (c : Cursor) : Except Fault (List Char × Cursor) :=
  if c.head? ≠ some '!' then .error .badTag
  else
    let (cs, c') := (c.drop 1).span isWord
    if c'.head? = some '!' then .ok ('!' :: cs ++ ['!'], c'.drop 1) else .ok ('!' :: cs, c')

/-- The handle is more than one mark and has one at either side. -/
def isNamedHandle (handle : List Char) : Bool := handle.length > 1 && handle.getLast? = some '!'

/-- A tag in angle brackets, with a handle, or local. -/
def tagToken (c : Cursor) : Except Fault (Token × Cursor) :=
  match c.rest with
  | '!' :: '<' :: _ => do
      let (suffix, c) ← tagText true (c.drop 2)
      if suffix.isEmpty || c.head? ≠ some '>' then .error .badTag
      else return (.tag "" suffix, c.drop 1)
  | _ => do
      let (handle, c) ← tagHandle c
      let (suffix, c) ← tagText false c
      if isNamedHandle handle then
        if suffix.isEmpty then .error .badTag else return (.tag (String.ofList handle) suffix, c)
      else
        let whole := String.ofList (handle.drop 1) ++ suffix
        if whole.isEmpty then return (.tag "" "!", c) else return (.tag "!" whole, c)

def tag (s : Lexer) : Except Fault Lexer := do
  let s ← s.savePlace
  let (t, cursor) ← tagToken s.cursor
  if cursor.rest.head?.all fun x => isGap x || (s.inFlow && x = ',') then
    return { s with cursor, keyAllowed := false }.emit t
  else .error .badTag

/-- A number of at most nine digits. -/
def versionNumber (c : Cursor) : Except Fault (Nat × Cursor) :=
  let (ds, c) := c.span Text.isDigit
  if ds.isEmpty || ds.length > 9 then .error .badDirective else .ok (Text.digitsValue ds, c)

def versionDirective (c : Cursor) : Except Fault (Token × Cursor) := do
  let (major, c) ← versionNumber (c.skip isSpace)
  if c.head? ≠ some '.' then .error .badDirective
  else
    let (minor, c) ← versionNumber (c.drop 1)
    return (.version major minor, c)

def handleDirective (c : Cursor) : Except Fault (Token × Cursor) := do
  let (handle, c) ← tagHandle (c.skip isSpace)
  if handle ≠ ['!'] && !isNamedHandle handle then .error .badDirective
  else if c.head?.all fun x => !isSpace x then .error .badDirective
  else
    let (expansion, c) ← tagText true (c.skip isSpace)
    if expansion.isEmpty || !atGap c.rest then .error .badDirective
    else return (.handle (String.ofList handle) expansion, c)

def directive (s : Lexer) : Except Fault Lexer := do
  let s ← s.betweenDocuments
  let (name, c) := (s.cursor.drop 1).span isWord
  if name.isEmpty || !atGap c.rest then .error .badDirective
  else
    let (t, c) ←
      if name = "YAML".toList then versionDirective c
      else if name = "TAG".toList then handleDirective c
      else .error .badDirective
    let c := c.skip isSpace
    let c := if c.head? = some '#' then c.skip fun x => !isBreak x else c
    if c.head?.any fun x => !isBreak x then .error .badDirective
    else return { s with cursor := c.drop 1 }.emit t

/-! ## Scalars -/

def quotedScalar (s : Lexer) (single : Bool) : Except Fault Lexer := do
  let s ← s.savePlace
  let c := s.cursor.drop 1
  let (text, cursor) ← quoted single [] .none c.mark c.rest
  return { s with cursor, keyAllowed := false }.emit (.scalar false (String.ofList text))

def plainScalar (s : Lexer) : Except Fault Lexer := do
  let s ← s.savePlace
  let r ← plain s.inFlow (s.indent + 1) [] .none s.cursor.mark s.cursor.rest
  return { s with cursor := r.cursor, keyAllowed := r.endsLine }.emit
    (.scalar true (String.ofList r.text))

def blockScalar (s : Lexer) (literal : Bool) : Except Fault Lexer := do
  let s ← s.forget
  let (text, cursor) ← block literal s.indent (s.cursor.drop 1)
  return { s with cursor, keyAllowed := true }.emit (.scalar false (String.ofList text))

/-! ## The next token -/

/-- The marks that never start a plain scalar. -/
def isIndicator (c : Char) : Bool := "-?:,[]\x7b\x7d#&*!|>'\"%@`".contains c

/-- A plain scalar may start with the character. -/
def startsPlain (s : Lexer) (c : Char) (after : List Char) : Bool :=
  !(isGap c || isIndicator c) ||
    (c = '-' && !(after.head?.any isSpace)) ||
    (!s.inFlow && (c = '?' || c = ':') && !atGap after)

/-- Reads the token that starts with the character. -/
def token (s : Lexer) (c : Char) (after : List Char) : Except Fault Lexer :=
  if s.cursor.column = 0 && c = '%' then s.directive
  else if s.cursor.atDelimiter '-' then do return (← s.betweenDocuments).mark 3 .documentStart
  else if s.cursor.atDelimiter '.' then do return (← s.betweenDocuments).mark 3 .documentEnd
  else
    match c with
    | '[' => s.openFlow .flowSequence
    | '{' => s.openFlow .flowMapping
    | ']' => s.closeFlow .flowSequenceEnd
    | '}' => s.closeFlow .flowMappingEnd
    | ',' => s.flowEntry
    | '*' => s.name .alias
    | '&' => s.name .anchor
    | '!' => s.tag
    | '\'' => s.quotedScalar true
    | '"' => s.quotedScalar false
    | _ =>
        if c = '-' && atGap after then s.blockEntry
        else if c = '?' && (s.inFlow || atGap after) then s.explicitKey
        else if c = ':' && (s.inFlow || atGap after) then s.value
        else if c = '|' && !s.inFlow then s.blockScalar true
        else if c = '>' && !s.inFlow then s.blockScalar false
        else if s.startsPlain c after then s.plainScalar
        else .error (.noToken c)

/-- At the end all blocks end. -/
def finish (s : Lexer) : Except Fault Lexer := (s.unindent (-1)).forget

/-- Reads all tokens; each takes at least one character. -/
def run : (fuel : Nat) → Lexer → Except Fault Lexer
  | 0, s => .ok s
  | fuel + 1, s => do
      let s ← s.skipGap.refreshAll
      let s := s.unindent s.cursor.column
      match s.cursor.rest with
      | [] => s.finish
      | c :: after => run fuel (← s.token c after)

end Lexer

/-- The tokens of a text. -/
def Token.ofText (text : List Char) : Except Fault (List Token) :=
  match text.find? (!isPermitted ·) with
  | some c => .error (.forbidden c)
  | none => do
      let cs := unifyBreaks text
      return (← Lexer.run (cs.length + 1) { cursor := Cursor.start cs }).slots.toList.flatten

end Runbook.Yaml
