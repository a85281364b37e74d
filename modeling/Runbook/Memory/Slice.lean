import Runbook.Run.Record

/-!
# Memory slices

A slice is one durable, classified record of a run. The store gives it an id, larger than all
earlier ones, and the time of its creation. A classification is one of five tags with a meaning,
or a tag of the user's own.
-/

set_option autoImplicit false

namespace Runbook

inductive Classification where
  | userPrompt
  | parameters
  | output
  | error
  /-- The encoded result of a step. -/
  | stepResult
  | custom (tag : String)
  deriving DecidableEq, Repr, Inhabited

namespace Classification

def name : Classification → String
  | .userPrompt => "user_prompt"
  | .parameters => "parameters"
  | .output => "output"
  | .error => "error"
  | .stepResult => "step_result"
  | .custom tag => tag

/-- The classification of a tag; only a tag without a meaning is the user's own. -/
def ofName : String → Classification
  | "user_prompt" => .userPrompt
  | "parameters" => .parameters
  | "output" => .output
  | "error" => .error
  | "step_result" => .stepResult
  | tag => .custom tag

@[simp] theorem name_ofName (tag : String) : (ofName tag).name = tag := by
  unfold ofName
  split <;> rfl

end Classification

/-- A slice about to be appended. -/
structure NewSlice where
  run : RunId
  step : String
  classification : Classification
  content : String
  metadata : Fields Json := []

structure Slice where
  id : Nat
  run : RunId
  step : String
  classification : Classification
  content : String
  metadata : Fields Json
  createdAt : Instant
  deriving Inhabited

namespace Slice

/-- A new slice with its id and time. -/
def ofNew (id : Nat) (createdAt : Instant) (s : NewSlice) : Slice :=
  { id, run := s.run, step := s.step, classification := s.classification, content := s.content,
    metadata := s.metadata, createdAt }

def encode (s : Slice) : Json :=
  .obj [("id", Json.nat s.id), ("run_id", .str s.run), ("step_name", .str s.step),
    ("classification", .str s.classification.name), ("content", .str s.content),
    ("metadata", .obj s.metadata), ("created_at", .str s.createdAt.text)]

end Slice

/-- Which slices of a run are wanted; an unset filter matches everything. -/
structure SliceQuery where
  run : RunId
  step : Option String := none
  classification : Option Classification := none
  limit : Option Nat := none

namespace SliceQuery

/-- The slice belongs to the run and passes both filters. -/
def accepts (q : SliceQuery) (s : Slice) : Bool :=
  s.run == q.run && (q.step.all fun n => n == s.step) &&
    (q.classification.all fun c => c == s.classification)

end SliceQuery

/-- What a listing of recent runs shows. -/
structure RunOverview where
  run : RunId
  sliceCount : Nat
  firstAt : Instant
  lastAt : Instant

namespace RunOverview

def encode (o : RunOverview) : Json :=
  .obj [("run_id", .str o.run), ("slice_count", Json.nat o.sliceCount),
    ("first_at", .str o.firstAt.text), ("last_at", .str o.lastAt.text)]

end RunOverview

/-- Totals over all slices; tags are in the order of their names. -/
structure MemoryStats where
  totalSlices : Nat
  distinctRuns : Nat
  byClassification : Fields Nat
  deriving DecidableEq, Repr

namespace MemoryStats

def encode (s : MemoryStats) : Json :=
  .obj [("total_slices", Json.nat s.totalSlices), ("distinct_runs", Json.nat s.distinctRuns),
    ("by_classification", .obj (s.byClassification.map fun e => (e.1, Json.nat e.2)))]

end MemoryStats

/-- A failure of the store, by direction. -/
inductive StoreError where
  | write (message : String)
  | read (message : String)
  | unavailable (message : String)
  deriving DecidableEq, Repr

namespace StoreError

def message : StoreError → String
  | .write m => s!"memory store write failed: {m}"
  | .read m => s!"memory store read failed: {m}"
  | .unavailable m => s!"memory store unavailable: {m}"

def isWrite : StoreError → Bool
  | .write _ => true
  | _ => false

end StoreError
end Runbook
