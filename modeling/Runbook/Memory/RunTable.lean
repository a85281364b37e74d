import Runbook.Memory.Store

/-!
# The store of one process

Slices are kept per run, in the order of their appends. Ids are drawn from one counter for all
runs, so they ascend within a run and never repeat. The time of a slice matters to purging only:
recency is the order of the ids.
-/

set_option autoImplicit false

namespace Runbook.Memory

structure RunTable where
  /-- The slices of each run, oldest first. -/
  runs : Fields (List Slice) := []
  lastId : Nat := 0

namespace RunTable

/-- The slices of a run, oldest first. -/
def slicesOf (t : RunTable) (run : RunId) : List Slice := (Fields.get? run t.runs).getD []

/-- Draws the next id. -/
def drawId (t : RunTable) : Nat × RunTable := (t.lastId + 1, { t with lastId := t.lastId + 1 })

/-- Puts a slice behind the others of its run. -/
def push (s : Slice) (t : RunTable) : RunTable :=
  { t with runs := Fields.put s.run (t.slicesOf s.run ++ [s]) t.runs }

def append (s : NewSlice) (now : Instant) (t : RunTable) : Nat × RunTable :=
  let (id, t) := t.drawId
  (id, t.push (Slice.ofNew id now s))

/-- The matching slices of the run, newest first. Newest is the largest id: ids ascend within a run, so
turning the order of the appends round is sorting by ids (`Orderly.query_eq`). -/
def query (q : SliceQuery) (t : RunTable) : List Slice :=
  upTo q.limit ((t.slicesOf q.run).filter q.accepts).reverse

def latest (run : RunId) (t : RunTable) : Option Slice :=
  (t.query { run, limit := some 1 }).head?

def history (run : RunId) (t : RunTable) : List Slice := (t.query { run }).reverse

/-- The earlier of two instants. -/
def earlier (a b : Instant) : Instant := if b < a then b else a

/-- The later of two instants. -/
def later (a b : Instant) : Instant := if a < b then b else a

/-- The overview of a run with its largest id. -/
def overview? (run : RunId) : List Slice → Option (Nat × RunOverview)
  | [] => none
  | s :: rest =>
      let times := rest.map (·.createdAt)
      some ((rest.map (·.id)).foldl max s.id,
        { run, sliceCount := rest.length + 1
          firstAt := times.foldl earlier s.createdAt
          lastAt := times.foldl later s.createdAt })

def overviews (limit : Nat) (t : RunTable) : List RunOverview :=
  let found := t.runs.filterMap fun e => overview? e.1 e.2
  ((found.mergeSort fun a b => b.1 ≤ a.1).map (·.2)).take limit

def stats (t : RunTable) : MemoryStats :=
  let slices := t.runs.flatMap (·.2)
  { totalSlices := slices.length
    distinctRuns := t.runs.length
    byClassification := tally (slices.map (·.classification.name)) }

/-- Runs without slices are forgotten. -/
def purge (cutoff : Instant) (t : RunTable) : Nat × RunTable :=
  let kept := (t.runs.map fun e => (e.1, e.2.filter fun s => cutoff ≤ s.createdAt)).filter
    fun e => !e.2.isEmpty
  let count (runs : Fields (List Slice)) : Nat := runs.foldr (fun e n => e.2.length + n) 0
  (count t.runs - count kept, { t with runs := kept })

end RunTable

instance : MemoryStore RunTable where
  append s now t := let (id, t) := t.append s now; (.ok id, t)
  query q t := (.ok (t.query q), t)
  latest run t := (.ok (t.latest run), t)
  history run t := (.ok (t.history run), t)
  runs limit t := .ok (t.overviews limit)
  stats t := .ok t.stats
  purge cutoff t := let (n, t) := t.purge cutoff; (.ok n, t)

end Runbook.Memory
