import Runbook.Json.Basic
import Runbook.Text.Blank
import Runbook.Text.Cut
import Runbook.Text.Numeral

/-!
# Scopes and dotted paths

A step sees three layers: the run's parameters, the results of earlier steps, and the memory it
asked for. A path such as `steps.draft.output` is cut at its dots and each segment is trimmed; an
empty segment makes the whole path resolve to nothing.

Names may contain dots themselves. So at a table the longest run of segments that spells a name is
tried first, and a shorter one when the rest of the path leads nowhere from there. In a list a
segment is an index.
-/

set_option autoImplicit false

namespace Runbook

/-- What the placeholders of a step can refer to. An absent layer has no name. -/
structure Scope where
  params : Option (Fields Json) := none
  steps : Option (Fields Json) := none
  memory : Option (Fields Json) := none

namespace Scope

/-- The three layers as one table. -/
def root (s : Scope) : Fields Json :=
  let layer (name : String) (l : Option (Fields Json)) : Fields Json :=
    match l with
    | some fs => [(name, .obj fs)]
    | none => []
  layer "params" s.params ++ layer "steps" s.steps ++ layer "memory" s.memory

/-- The name that the first `n` segments spell. -/
def groupName (segments : List String) (n : Nat) : String := Text.join "." (segments.take n)

/-- Tries the groups of `n`, `n - 1`, …, 1 segments as names of a table; `step` follows the rest
of the path from the value found. -/
def tryGroups (step : Json → List String → Option Json) (fs : Fields Json)
    (segments : List String) : Nat → Option Json
  | 0 => none
  | n + 1 =>
      match Fields.get? (groupName segments (n + 1)) fs with
      | some child =>
          match step child (segments.drop (n + 1)) with
          | some found => some found
          | none => tryGroups step fs segments n
      | none => tryGroups step fs segments n

/-- Follows at most `depth` levels of names and indices. -/
def walk : (depth : Nat) → Json → List String → Option Json
  | _, v, [] => some v
  | 0, _, _ :: _ => none
  | depth + 1, .obj fs, s :: rest => tryGroups (walk depth) fs (s :: rest) (rest.length + 1)
  | depth + 1, .arr items, s :: rest => do
      let i ← Text.word? s
      let item ← items[i]?
      walk depth item rest
  | _, _, _ :: _ => none

/-- The trimmed segments of a path. -/
def segments (path : String) : List String := (Text.split '.' path).map Text.trim

/-- The value at a path. Every level uses up at least one segment. -/
def lookup (s : Scope) (path : String) : Option Json :=
  let segs := segments path
  if segs.any String.isEmpty then none else walk segs.length (.obj s.root) segs

end Scope
end Runbook
