import Runbook.Json.Decode
import Runbook.Json.Reader
import Runbook.Memory.Store

/-!
# The durable store

Slices are rows of texts: metadata as a JSON text, times as texts of one width with six digits
behind the point, so that the order of the texts is the order of the times. Rows are kept in the
order of their ids. An id is never given twice, not even after a purge.
-/

set_option autoImplicit false

namespace Runbook.Memory

structure Row where
  id : Nat
  run : RunId
  step : String
  classification : String
  content : String
  metadata : String
  createdAt : String
  deriving DecidableEq, Repr

structure RowTable where
  /-- Oldest first. -/
  rows : List Row := []
  lastId : Nat := 0

namespace Row

/-- The text of a time: always six digits behind the point. -/
def timeText (t : Instant) : String := t.textWith "Z" .micros

def ofNew (id : Nat) (now : Instant) (s : NewSlice) : Row :=
  { id, run := s.run, step := s.step, classification := s.classification.name
    content := s.content, metadata := (Json.obj s.metadata).compress, createdAt := timeText now }

/-- The time of a row. One behind the year 9999 is written with a sign, and cannot be read. -/
def time (text : String) : Except StoreError Instant :=
  match Instant.parseFourDigits? text with
  | some t => .ok t
  | none => .error (.read s!"invalid datetime: {text}")

/-- The slice that a row holds. -/
def toSlice (r : Row) : Except StoreError Slice :=
  match Json.parse? r.metadata with
  | some (.obj metadata) => do
      return { id := r.id, run := r.run, step := r.step
               classification := Classification.ofName r.classification
               content := r.content, metadata, createdAt := ← time r.createdAt }
  | _ => .error (.read s!"invalid slice metadata: {r.metadata}")

/-- The row answers the query. -/
def accepted (q : SliceQuery) (r : Row) : Bool :=
  r.run == q.run && (q.step.all fun n => n == r.step) &&
    (q.classification.all fun c => c.name == r.classification)

end Row

namespace RowTable

def append (s : NewSlice) (now : Instant) (t : RowTable) : Nat × RowTable :=
  let id := t.lastId + 1
  (id, { rows := t.rows ++ [Row.ofNew id now s], lastId := id })

/-- The matching slices of the run, newest first. A limit counts as it is: there are never as many
rows as a limit that does not fit the 64 bits of an id. -/
def query (q : SliceQuery) (t : RowTable) : Except StoreError (List Slice) :=
  (upTo q.limit (t.rows.filter (Row.accepted q)).reverse).mapM Row.toSlice

def latest (run : RunId) (t : RowTable) : Except StoreError (Option Slice) :=
  (t.query { run, limit := some 1 }).map List.head?

def history (run : RunId) (t : RowTable) : Except StoreError (List Slice) :=
  (t.rows.filter fun r => r.run == run).mapM Row.toSlice

/-- The smaller of two texts. -/
def smaller (a b : String) : String := if b < a then b else a

/-- The larger of two texts. -/
def larger (a b : String) : String := if a < b then b else a

/-- The overview of the rows of a run. -/
def overview (run : RunId) (first : Row) (rest : List Row) : Except StoreError RunOverview := do
  let times := rest.map (·.createdAt)
  return { run, sliceCount := rest.length + 1
           firstAt := ← Row.time (times.foldl smaller first.createdAt)
           lastAt := ← Row.time (times.foldl larger first.createdAt) }

/-- The runs by their newest rows, the newest first. -/
def recentRuns (t : RowTable) : List RunId := (t.rows.reverse.map (·.run)).eraseDups

/-- The overviews of the runs, the newest first. As in a query, a limit counts as it is. -/
def overviews (limit : Nat) (t : RowTable) : Except StoreError (List RunOverview) :=
  ((t.recentRuns.take limit).filterMap fun run =>
    match t.rows.filter fun r => r.run == run with
    | [] => none
    | r :: rest => some (overview run r rest)).mapM id

def stats (t : RowTable) : MemoryStats :=
  { totalSlices := t.rows.length
    distinctRuns := t.recentRuns.length
    byClassification := tally (t.rows.map (·.classification)) }

def purge (cutoff : Instant) (t : RowTable) : Nat × RowTable :=
  let (old, kept) := t.rows.partition fun r => r.createdAt < Row.timeText cutoff
  (old.length, { t with rows := kept })

end RowTable

instance : MemoryStore RowTable where
  append s now t := let (id, t) := t.append s now; (.ok id, t)
  query q t := (t.query q, t)
  latest run t := (t.latest run, t)
  history run t := (t.history run, t)
  runs limit t := t.overviews limit
  stats t := .ok t.stats
  purge cutoff t := let (n, t) := t.purge cutoff; (.ok n, t)

/-! ## The archive

Between two commands the rows are kept in a file, as a table in JSON. What cannot be read is not
taken for an empty memory. -/

namespace Row

def encode (r : Row) : Json :=
  .obj [("id", Json.nat r.id), ("run_id", .str r.run), ("step_name", .str r.step),
    ("classification", .str r.classification), ("content", .str r.content),
    ("metadata", .str r.metadata), ("created_at", .str r.createdAt)]

def decode : Decoder Row := fun v => do
  let fs ← Decode.record "row" [] v
  return {
    id := ← Decode.required "id" Decode.word64 fs
    run := ← Decode.required "run_id" Decode.text fs
    step := ← Decode.required "step_name" Decode.text fs
    classification := ← Decode.required "classification" Decode.text fs
    content := ← Decode.required "content" Decode.text fs
    metadata := ← Decode.required "metadata" Decode.text fs
    createdAt := ← Decode.required "created_at" Decode.text fs }

end Row

namespace RowTable

/-- The name of the file in the data directory. -/
def fileName : String := "memory.json"

def encode (t : RowTable) : Json :=
  .obj [("last_id", Json.nat t.lastId), ("rows", .arr (t.rows.map Row.encode))]

def decode : Decoder RowTable := fun v => do
  let fs ← Decode.record "memory" [] v
  return {
    lastId := ← Decode.required "last_id" Decode.word64 fs
    rows := ← Decode.required "rows" (Decode.list Row.decode) fs }

/-- The rows that the text of an archive holds. -/
def ofText? (s : String) : Option RowTable :=
  (Json.parse? s).bind fun v => (decode v).toOption

def toText (t : RowTable) : String := t.encode.compress

end RowTable
end Runbook.Memory
