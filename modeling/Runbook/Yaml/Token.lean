import Runbook.Yaml.Cursor

/-!
# Tokens of a document

The indentation of a document is made explicit in its tokens: a block collection has a start token
and `blockEnd`, and every key of a mapping has `key` in front of it, wherever it was written.
-/

set_option autoImplicit false

namespace Runbook.Yaml

inductive Token where
  | version (major minor : Nat)
  | handle (name expansion : String)
  | documentStart
  | documentEnd
  | blockSequence
  | blockMapping
  | blockEnd
  | flowSequence
  | flowSequenceEnd
  | flowMapping
  | flowMappingEnd
  | blockEntry
  | flowEntry
  | key
  | value
  | alias (name : String)
  | anchor (name : String)
  /-- A tag as written: a handle and what follows it. -/
  | tag (handle suffix : String)
  | scalar (plain : Bool) (text : String)
  deriving DecidableEq, Repr

/-- Why a text is no document. -/
inductive Fault where
  | forbidden (c : Char)
  | noToken (c : Char)
  | misplaced (what : String)
  | expected (what : String)
  | unterminated
  | badEscape
  | badTab
  | badName
  | badTag
  | badDirective
  | unknownHandle (handle : String)
  | unknownAlias (name : String)
  | badKey
  | badScalar (tag text : String)
  | wideInteger (text : String)
  | localTag (tag : String)
  | tooDeep
  | tooManyAliases
  | manyDocuments
  deriving DecidableEq, Repr

def Fault.message : Fault → String
  | .forbidden c => s!"control characters are not allowed: code point {c.toNat}"
  | .noToken c => "found character that cannot start any token: " ++ String.singleton c
  | .misplaced what => s!"{what} are not allowed in this context"
  | .expected what => s!"did not find expected {what}"
  | .unterminated => "found unexpected end of document in a quoted scalar"
  | .badEscape => "found unknown or malformed escape"
  | .badTab => "found a tab character where an indentation space is expected"
  | .badName => "did not find expected alphabetic or numeric character"
  | .badTag => "malformed tag"
  | .badDirective => "malformed or unknown directive"
  | .unknownHandle handle => s!"found undefined tag handle {handle}"
  | .unknownAlias name => s!"unknown anchor {name}"
  | .badKey => "expected a scalar as a key"
  | .badScalar tag text => s!"invalid value for tag {tag}: {text}"
  | .wideInteger text => s!"integer {text} does not fit 64 bits"
  | .localTag tag => s!"unexpected tag {tag}"
  | .tooDeep => "recursion limit exceeded"
  | .tooManyAliases => "repetition limit exceeded"
  | .manyDocuments => "found more than one document"

end Runbook.Yaml
