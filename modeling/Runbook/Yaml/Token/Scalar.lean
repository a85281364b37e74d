import Runbook.Yaml.Token

/-!
# Scalars

A scalar is written in quotes, plainly, or as a block behind `|` or `>`. In quoted and plain
scalars a run of white space inside one line is kept, a single break becomes a space, and further
breaks are kept. A block keeps its lines, or folds them with `>` where neither neighbour is
indented further.
-/

set_option autoImplicit false

namespace Runbook.Yaml

/-- White space read but not yet part of a scalar. -/
inductive Pending where
  /-- Spaces and tabs of one line. -/
  | inLine (spaces : List Char)
  /-- The first break, none for an escaped one, and the breaks after it. -/
  | breaks (first : Option Char) (more : List Char)

namespace Pending

def none : Pending := .inLine []

/-- Spaces beside a break do not count. -/
def push (p : Pending) (c : Char) : Pending :=
  match p with
  | .inLine spaces => if isBreak c then .breaks (some c) [] else .inLine (spaces ++ [c])
  | .breaks first more => if isBreak c then .breaks first (more ++ [c]) else .breaks first more

/-- What the white space contributes when the scalar goes on. -/
def folded : Pending → List Char
  | .inLine spaces => spaces
  | .breaks first more =>
      if first = some '\n' then (if more.isEmpty then [' '] else more) else first.toList ++ more

/-- The scalar goes on on another line. -/
def hasBreak : Pending → Bool
  | .inLine _ => false
  | .breaks .. => true

end Pending

/-! ## Quoted scalars -/

/-- The character that an escape of two characters stands for. -/
def escaped? : Char → Option Char
  | '0' => some '\x00'
  | 'a' => some '\x07'
  | 'b' => some '\x08'
  | 't' => some '\t'
  | '\t' => some '\t'
  | 'n' => some '\n'
  | 'v' => some '\x0b'
  | 'f' => some '\x0c'
  | 'r' => some '\r'
  | 'e' => some '\x1b'
  | ' ' => some ' '
  | '"' => some '"'
  | '/' => some '/'
  | '\\' => some '\\'
  | 'N' => some '\u0085'
  | '_' => some '\u00a0'
  | 'L' => some '\u2028'
  | 'P' => some '\u2029'
  | _ => none

/-- How many hexadecimal digits follow. -/
def escapeWidth? : Char → Option Nat
  | 'x' => some 2
  | 'u' => some 4
  | 'U' => some 8
  | _ => none

def hexValue? (c : Char) : Option Nat :=
  if '0' ≤ c ∧ c ≤ '9' then some (c.toNat - 48)
  else if 'a' ≤ c ∧ c ≤ 'f' then some (c.toNat - 87)
  else if 'A' ≤ c ∧ c ≤ 'F' then some (c.toNat - 55)
  else none

/-- The value of exactly `n` hexadecimal digits. -/
def hexNumber? (n : Nat) (cs : List Char) : Option Nat :=
  let ds := cs.take n
  if ds.length < n then none
  else ds.foldl (fun acc c => do return (← acc) * 16 + (← hexValue? c)) (some 0)

/-- A code point that is a character. -/
def charOf? (n : Nat) : Option Char :=
  if n.isValidChar then some (Char.ofNat n) else none

/-- Reads a scalar whose opening quote has been read; `acc` holds its characters last first. -/
def quoted (single : Bool) (acc : List Char) (pending : Pending) (m : Mark) :
    List Char → Except Fault (List Char × Cursor)
  | [] => .error .unterminated
  | c :: cs =>
      if isGap c then quoted single acc (pending.push c) (m.after c) cs
      else if (Cursor.mk m (c :: cs)).atDocumentMark then .error .unterminated
      else
        let acc := pending.folded.reverse ++ acc
        if single then
          if c = '\'' then
            match cs with
            | '\'' :: r => quoted single ('\'' :: acc) .none ((m.after c).after c) r
            | _ => .ok (acc.reverse, ⟨m.after c, cs⟩)
          else quoted single (c :: acc) .none (m.after c) cs
        else if c = '"' then .ok (acc.reverse, ⟨m.after c, cs⟩)
        else if c = '\\' then
          match cs with
          | [] => .error .badEscape
          | e :: r =>
              let m' := (m.after c).after e
              if isBreak e then quoted single acc (.breaks Option.none []) m' r
              else
                match escaped? e, escapeWidth? e with
                | some x, _ => quoted single (x :: acc) .none m' r
                | _, some n =>
                    match (hexNumber? n r).bind charOf? with
                    | some x =>
                        quoted single (x :: acc) .none ((r.take n).foldl Mark.after m') (r.drop n)
                    | none => .error .badEscape
                | _, _ => .error .badEscape
        else quoted single (c :: acc) .none (m.after c) cs
termination_by cs => cs.length
decreasing_by all_goals simp_wf; all_goals omega

/-! ## Plain scalars -/

/-- The characters that structure flow collections. -/
def isFlowMark (c : Char) : Bool := c = ',' || c = '[' || c = ']' || c = '{' || c = '}'

/-- A colon directly before these is refused inside flow collections. -/
def refusesColon (cs : List Char) : Bool :=
  match cs with
  | c :: _ => c = '?' || isFlowMark c
  | [] => false

/-- What reading a plain scalar found. -/
structure PlainScalar where
  text : List Char
  /-- The scalar was followed by a break. -/
  endsLine : Bool
  cursor : Cursor

/-- Reads a plain scalar. Outside flow collections its lines are indented by at least `indent`. -/
def plain (inFlow : Bool) (indent : Int) (acc : List Char) (pending : Pending) (m : Mark) :
    List Char → Except Fault PlainScalar
  | [] => .ok ⟨acc.reverse, pending.hasBreak, ⟨m, []⟩⟩
  | c :: cs =>
      let done : PlainScalar := ⟨acc.reverse, pending.hasBreak, ⟨m, c :: cs⟩⟩
      if isGap c then
        if c = '\t' && pending.hasBreak && m.column < indent then .error .badTab
        else plain inFlow indent acc (pending.push c) (m.after c) cs
      else if pending.hasBreak && !inFlow && m.column < indent then .ok done
      else if done.cursor.atDocumentMark then .ok done
      else if c = '#' && !pending.folded.isEmpty then .ok done
      else if inFlow && c = ':' && refusesColon cs then .error (.noToken c)
      else if (c = ':' && atGap cs) || (inFlow && isFlowMark c) then .ok done
      else plain inFlow indent (c :: (pending.folded.reverse ++ acc)) .none (m.after c) cs

/-! ## Block scalars -/

/-- What becomes of the breaks at the end of a block. -/
inductive Chomping where
  | strip
  | clip
  | keep
  deriving DecidableEq, Repr

structure BlockHeader where
  chomping : Chomping := .clip
  /-- The indentation relative to the parent, if it is given. -/
  increment : Option Nat := none

def chomping? : Char → Option Chomping
  | '+' => some .keep
  | '-' => some .strip
  | _ => none

/-- A digit from 1 to 9. -/
def increment? (c : Char) : Option Nat := if '1' ≤ c ∧ c ≤ '9' then some (c.toNat - 48) else none

/-- The marks behind `|` or `>`, in either order. -/
def blockHeader (c : Cursor) : BlockHeader × Cursor :=
  match c.rest with
  | a :: r =>
      match chomping? a, increment? a with
      | some k, _ =>
          match r.head?.bind increment? with
          | some n => (⟨k, some n⟩, c.drop 2)
          | none => (⟨k, none⟩, c.drop 1)
      | _, some n =>
          match r.head?.bind chomping? with
          | some k => (⟨k, some n⟩, c.drop 2)
          | none => (⟨.clip, some n⟩, c.drop 1)
      | _, _ => ({}, c)
  | [] => ({}, c)

/-- What stands between two lines of a block. -/
structure Margin where
  breaks : List Char
  /-- The widest indentation seen. -/
  widest : Nat
  cursor : Cursor

/-- Eats indentation and empty lines; without an indentation of its own the block takes all
leading spaces. -/
def margin (indent : Option Nat) (breaks : List Char) (widest : Nat) (m : Mark) :
    List Char → Except Fault Margin
  | [] => .ok ⟨breaks, max widest m.column, ⟨m, []⟩⟩
  | c :: cs =>
      let inside := match indent with
        | none => true
        | some n => m.column < n
      if inside && c = ' ' then margin indent breaks widest (m.after c) cs
      else if inside && c = '\t' then .error .badTab
      else if isBreak c then
        margin indent (breaks ++ [c]) (max widest m.column) (m.after c) cs
      else .ok ⟨breaks, max widest m.column, ⟨m, c :: cs⟩⟩

/-- What has been read of a block: its characters last first, the break behind its last line, the
empty lines behind that, and whether that line starts with a space. -/
structure BlockState where
  acc : List Char := []
  lastBreak : Option Char := none
  empty : List Char
  spaced : Bool := false

/-- Adds the breaks before a line: folded to a space if both lines start with text. -/
def BlockState.joined (s : BlockState) (literal spaced : Bool) : List Char :=
  let between :=
    if !literal && s.lastBreak = some '\n' && !s.spaced && !spaced then
      (if s.empty.isEmpty then [' '] else [])
    else s.lastBreak.toList
  (between ++ s.empty).reverse ++ s.acc

/-- Reads the lines of a block at their indentation. -/
def blockLines (literal : Bool) (indent : Nat) :
    (fuel : Nat) → BlockState → Cursor → Except Fault (BlockState × Cursor)
  | 0, s, c => .ok (s, c)
  | fuel + 1, s, c =>
      match c.head? with
      | none => .ok (s, c)
      | some x =>
          if c.column ≠ indent then .ok (s, c)
          else
            let spaced := isSpace x
            let (line, c') := c.span fun x => !isBreak x
            let acc := line.reverse ++ s.joined literal spaced
            let lastBreak := c'.head?
            let next := c'.drop 1
            match margin (some indent) [] 0 next.mark next.rest with
            | .error e => .error e
            | .ok g => blockLines literal indent fuel ⟨acc, lastBreak, g.breaks, spaced⟩ g.cursor

/-- The characters of a finished block. -/
def BlockState.chomped (s : BlockState) (k : Chomping) : List Char :=
  let tail := match k with
    | .strip => []
    | .clip => s.lastBreak.toList
    | .keep => s.lastBreak.toList ++ s.empty
  s.acc.reverse ++ tail

/-- Reads a block whose `|` or `>` has been read; `parent` is the indentation around it. -/
def block (literal : Bool) (parent : Int) (c : Cursor) : Except Fault (List Char × Cursor) :=
  let (header, c) := blockHeader c
  let c := c.skip isSpace
  let c := if c.head? = some '#' then c.skip fun x => !isBreak x else c
  if c.head?.any fun x => !isBreak x then .error (.expected "comment or line break")
  else
    let c := c.drop 1
    let given := header.increment.map fun n => (max parent 0).toNat + n
    match margin given [] 0 c.mark c.rest with
    | .error e => .error e
    | .ok g =>
        let indent := given.getD (max (max g.widest (parent + 1).toNat) 1)
        match blockLines literal indent (g.cursor.rest.length + 1) { empty := g.breaks } g.cursor with
        | .error e => .error e
        | .ok (s, c) => .ok (s.chomped header.chomping, c)

end Runbook.Yaml
