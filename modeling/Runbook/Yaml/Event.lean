import Runbook.Json.Fields
import Runbook.Yaml.Token.Lexer

/-!
# From tokens to events

A document is a node: a scalar, a sequence, a mapping, or an alias for an earlier node. Its events
list the nodes in the order of the text, with the start and the end of each collection. What may
be left out in the text, a key, a value or an entry, is an empty plain scalar among the events.

The grammar is read by recursive descent. The fuel bounds the number of calls, of which every two
take at least one token.
-/

set_option autoImplicit false

namespace Runbook.Yaml

/-- What stands in front of a node. -/
structure Properties where
  anchor : Option String := none
  tag : Option String := none
  deriving DecidableEq, Repr

inductive Event where
  | alias (name : String)
  | scalar (properties : Properties) (plain : Bool) (text : String)
  | sequence (properties : Properties)
  | sequenceEnd
  | mapping (properties : Properties)
  | mappingEnd
  deriving DecidableEq, Repr

namespace Event

/-- What was left out. -/
def empty : Event := .scalar {} true ""

/-- The expansions of tag handles that hold in every document. -/
def commonHandles : Fields String := [("!", "!"), ("!!", "tag:yaml.org,2002:")]

/-- The full tag: a verbatim one as it is, any other with its handle expanded. -/
def expandTag (handles : Fields String) (handle suffix : String) : Except Fault String :=
  if handle.isEmpty then .ok suffix
  else
    match Fields.get? handle handles with
    | some expansion => .ok (expansion ++ suffix)
    | none => .error (.unknownHandle handle)

/-- The anchor and the tag in front of a node, in either order. -/
def properties (handles : Fields String) :
    List Token → Except Fault (Properties × List Token)
  | .anchor a :: .tag h s :: ts => do return (⟨a, ← expandTag handles h s⟩, ts)
  | .tag h s :: .anchor a :: ts => do return (⟨a, ← expandTag handles h s⟩, ts)
  | .anchor a :: ts => .ok (⟨a, none⟩, ts)
  | .tag h s :: ts => do return (⟨none, ← expandTag handles h s⟩, ts)
  | ts => .ok ({}, ts)

/-- On a scalar the tag `!` says nothing. -/
def Properties.ofScalar (p : Properties) : Properties :=
  if p.tag = some "!" then { p with tag := none } else p

/-- Where a node stands: whether block collections may start, and whether entries of a sequence
may stand at the indentation of the key. -/
structure Place where
  block : Bool
  indentless : Bool

def inBlock : Place := ⟨true, false⟩

def inMapping : Place := ⟨true, true⟩

def inFlow : Place := ⟨false, false⟩

/-- The first token is one of those that stand behind something left out. -/
def startsWith (ends : List Token) (ts : List Token) : Bool := ts.head?.any ends.contains

abbrev Reading := Except Fault (List Event × List Token)

/-- A node behind the tokens that were read already. -/
def after (events : List Event) (r : Reading) : Reading := do
  let (more, ts) ← r
  return (events ++ more, ts)

mutual

/-- A node. -/
def node (handles : Fields String) : (fuel : Nat) → Place → List Token → Reading
  | 0, _, _ => .error .tooDeep
  | fuel + 1, place, ts =>
      match ts with
      | .alias name :: ts => .ok ([.alias name], ts)
      | _ => do
          let (p, ts) ← properties handles ts
          match ts with
          | .scalar plain text :: ts =>
              return ([.scalar (Properties.ofScalar p) plain text], ts)
          | .flowSequence :: ts => after [.sequence p] (flowItems handles fuel true ts)
          | .flowMapping :: ts => after [.mapping p] (flowEntries handles fuel true ts)
          | t :: rest =>
              if place.indentless && t = .blockEntry then
                after [.sequence p] (indentlessItems handles fuel ts)
              else if place.block && t = .blockSequence then
                after [.sequence p] (blockItems handles fuel rest)
              else if place.block && t = .blockMapping then
                after [.mapping p] (blockEntries handles fuel rest)
              else leftOut p ts
          | [] => leftOut p []

/-- A node of which only the properties are there. -/
def leftOut (p : Properties) (ts : List Token) : Reading :=
  if p = {} then .error (.expected "node content")
  else .ok ([.scalar (Properties.ofScalar p) true ""], ts)

/-- A node, unless one of the given tokens shows that it was left out. -/
def nodeUnless (handles : Fields String) :
    (fuel : Nat) → (ends : List Token) → Place → List Token → Reading
  | 0, _, _, _ => .error .tooDeep
  | fuel + 1, ends, place, ts =>
      if startsWith ends ts then .ok ([.empty], ts) else node handles fuel place ts

/-- The rest of a block sequence. -/
def blockItems (handles : Fields String) : (fuel : Nat) → List Token → Reading
  | 0, _ => .error .tooDeep
  | fuel + 1, ts =>
      match ts with
      | .blockEntry :: ts => do
          let (es, ts) ← nodeUnless handles fuel [.blockEntry, .blockEnd] inBlock ts
          after es (blockItems handles fuel ts)
      | .blockEnd :: ts => .ok ([.sequenceEnd], ts)
      | _ => .error (.expected "'-' indicator")

/-- The rest of a sequence at the indentation of its key. -/
def indentlessItems (handles : Fields String) : (fuel : Nat) → List Token → Reading
  | 0, _ => .error .tooDeep
  | fuel + 1, ts =>
      match ts with
      | .blockEntry :: ts => do
          let (es, ts) ←
            nodeUnless handles fuel [.blockEntry, .key, .value, .blockEnd] inBlock ts
          after es (indentlessItems handles fuel ts)
      | ts => .ok ([.sequenceEnd], ts)

/-- The rest of a block mapping. -/
def blockEntries (handles : Fields String) : (fuel : Nat) → List Token → Reading
  | 0, _ => .error .tooDeep
  | fuel + 1, ts =>
      match ts with
      | .key :: ts => do
          let (ks, ts) ← nodeUnless handles fuel [.key, .value, .blockEnd] inMapping ts
          let (vs, ts) ←
            match ts with
            | .value :: ts => nodeUnless handles fuel [.key, .value, .blockEnd] inMapping ts
            | ts => Except.ok ([.empty], ts)
          after (ks ++ vs) (blockEntries handles fuel ts)
      | .blockEnd :: ts => .ok ([.mappingEnd], ts)
      | _ => .error (.expected "key")

/-- The rest of a flow sequence. An entry may be a pair, which is a mapping of its own. -/
def flowItems (handles : Fields String) : (fuel : Nat) → (first : Bool) → List Token → Reading
  | 0, _, _ => .error .tooDeep
  | fuel + 1, first, ts =>
      match ts with
      | .flowSequenceEnd :: ts => .ok ([.sequenceEnd], ts)
      | _ => do
          let ts ← flowSeparator first "',' or ']'" ts
          match ts with
          | .flowSequenceEnd :: ts => return ([.sequenceEnd], ts)
          | .key :: ts =>
              let (es, ts) ← flowPair handles fuel ts
              after es (flowItems handles fuel false ts)
          | ts =>
              let (es, ts) ← node handles fuel inFlow ts
              after es (flowItems handles fuel false ts)

/-- Entries of flow collections are separated by commas. -/
def flowSeparator (first : Bool) (what : String) (ts : List Token) :
    Except Fault (List Token) :=
  if first then .ok ts
  else
    match ts with
    | .flowEntry :: ts => .ok ts
    | _ => .error (.expected what)

/-- A pair in a flow sequence. When its key was left out, the token behind is passed over. -/
def flowPair (handles : Fields String) : (fuel : Nat) → List Token → Reading
  | 0, _ => .error .tooDeep
  | fuel + 1, ts => do
      let (ks, ts) ←
        if startsWith [.value, .flowEntry, .flowSequenceEnd] ts then
          Except.ok ([.empty], ts.drop 1)
        else node handles fuel inFlow ts
      let (vs, ts) ←
        match ts with
        | .value :: ts => nodeUnless handles fuel [.flowEntry, .flowSequenceEnd] inFlow ts
        | ts => Except.ok ([.empty], ts)
      return ([.mapping {}] ++ ks ++ vs ++ [.mappingEnd], ts)

/-- The rest of a flow mapping. An entry without a colon is a key without a value. -/
def flowEntries (handles : Fields String) : (fuel : Nat) → (first : Bool) → List Token → Reading
  | 0, _, _ => .error .tooDeep
  | fuel + 1, first, ts =>
      match ts with
      | .flowMappingEnd :: ts => .ok ([.mappingEnd], ts)
      | _ => do
          let ts ← flowSeparator first "',' or '\x7d'" ts
          match ts with
          | .flowMappingEnd :: ts => return ([.mappingEnd], ts)
          | .key :: ts =>
              let (ks, ts) ←
                nodeUnless handles fuel [.value, .flowEntry, .flowMappingEnd] inFlow ts
              let (vs, ts) ←
                match ts with
                | .value :: ts =>
                    nodeUnless handles fuel [.flowEntry, .flowMappingEnd] inFlow ts
                | ts => Except.ok ([.empty], ts)
              after (ks ++ vs) (flowEntries handles fuel false ts)
          | ts =>
              let (ks, ts) ← node handles fuel inFlow ts
              after (ks ++ [.empty]) (flowEntries handles fuel false ts)

end

/-! ## The document -/

/-- The directives in front of a document: at most one version, 1.1 or 1.2, and no handle twice.
They replace the common handles of the same names. -/
def directives : (version : Bool) → (seen : List String) → Fields String → List Token →
    Except Fault (Fields String × List Token)
  | version, seen, handles, .version major minor :: ts =>
      if version || major ≠ 1 || (minor ≠ 1 && minor ≠ 2) then .error .badDirective
      else directives true seen handles ts
  | version, seen, handles, .handle name expansion :: ts =>
      if seen.contains name then .error .badDirective
      else directives version (name :: seen) (Fields.put name expansion handles) ts
  | _, _, handles, ts => .ok (handles, ts)

/-- End marks behind a document. -/
def dropEnds : List Token → List Token
  | .documentEnd :: ts => dropEnds ts
  | ts => ts

/-- The node behind an explicit start mark, which may be left out. -/
def explicitContent (handles : Fields String) (fuel : Nat) : List Token → Reading
  | [] => .ok ([.empty], [])
  | t :: ts =>
      match t with
      | .version .. | .handle .. | .documentStart | .documentEnd => .ok ([.empty], t :: ts)
      | _ => node handles fuel inBlock (t :: ts)

/-- The events of the only document of a text; none if there is no document at all. -/
def ofTokens (ts : List Token) : Except Fault (List Event) := do
  let fuel := 3 * ts.length + 8
  let (es, rest) ←
    match ts with
    | [] => Except.ok ([], [])
    | .version .. :: _ | .handle .. :: _ | .documentStart :: _ => do
        let (handles, ts) ← directives false [] commonHandles ts
        match ts with
        | .documentStart :: ts => explicitContent handles fuel ts
        | _ => .error (.expected "<document start>")
    | ts => node commonHandles fuel inBlock ts
  if (dropEnds rest).isEmpty then return es else .error .manyDocuments

end Event
end Runbook.Yaml
