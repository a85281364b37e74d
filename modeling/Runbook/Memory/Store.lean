import Runbook.Dialogue
import Runbook.Memory.Slice

/-!
# Stores of memory

A store is an append-only log of slices. It gives ascending ids, answers queries newest first, and
is purged by age. Every operation may fail, and a failed append stores nothing.

Runs see a store through three questions only: append a slice, find slices, and list the history
of a run.
-/

set_option autoImplicit false

namespace Runbook

/-- What a store of type `σ` can do. Reading returns the store too, so that a store may count. -/
class MemoryStore (σ : Type) where
  /-- Stores one slice with the given time, and returns its id. -/
  append : NewSlice → Instant → σ → Except StoreError Nat × σ
  /-- The matching slices, newest first. -/
  query : SliceQuery → σ → Except StoreError (List Slice) × σ
  /-- The newest slice of a run. -/
  latest : RunId → σ → Except StoreError (Option Slice) × σ
  /-- All slices of a run, oldest first. -/
  history : RunId → σ → Except StoreError (List Slice) × σ
  /-- The runs that were active last, newest first. -/
  runs : Nat → σ → Except StoreError (List RunOverview)
  stats : σ → Except StoreError MemoryStats
  /-- Removes what was created before the cutoff, and returns how much that was. -/
  purge : Instant → σ → Except StoreError Nat × σ

namespace Memory

/-! ## Ages -/

/-- A length of time: whole seconds, and nanoseconds. -/
structure Age where
  seconds : Nat
  nanos : Nat := 0

namespace Age

/-- The age in nanoseconds. -/
def length (age : Age) : Nat := age.seconds * 1000000000 + age.nanos

/-- The longest span between two instants that is reckoned with: `2^63 - 1` milliseconds. -/
def longestSpan : Nat := 9223372036854775807 * 1000000

/-- The age as a span between two instants. -/
def span? (age : Age) : Option Nat := if age.length ≤ longestSpan then some age.length else none

end Age

/-- When that was created which is now of the age; the earliest instant if that is too long ago. -/
def cutoff (now : Instant) (age : Age) : Instant :=
  (age.span?.bind fun span => now.back? span).getD Instant.earliest

/-- The cutoff for an age in whole seconds. -/
def purgeCutoff (now : Instant) (ageSecs : Nat) : Instant := cutoff now { seconds := ageSecs }

/-- The first `limit` items, or all. -/
def upTo {α : Type} (limit : Option Nat) (items : List α) : List α :=
  match limit with
  | some n => items.take n
  | none => items

/-- How often each name occurs, in the order of the names. -/
def tally (names : List String) : Fields Nat :=
  Fields.sorted
    (names.foldl (fun acc n => Fields.put n ((Fields.get? n acc).getD 0 + 1) acc) [])

/-! ## Questions -/

inductive StoreQuestion where
  | append (slice : NewSlice)
  | query (q : SliceQuery)
  | history (run : RunId)

/-- The answers to a question. -/
abbrev StoreAnswer : StoreQuestion → Type
  | .append _ => Except StoreError Nat
  | .query _ => Except StoreError (List Slice)
  | .history _ => Except StoreError (List Slice)

/-- A computation that uses a store. -/
abbrev StoreDialogue (α : Type) := Dialogue StoreQuestion StoreAnswer α

/-- A store answers; what is appended gets the time `now`. -/
def reply {σ : Type} [MemoryStore σ] (now : Instant) : (q : StoreQuestion) → σ → StoreAnswer q × σ
  | .append s, st => MemoryStore.append s now st
  | .query q, st => MemoryStore.query q st
  | .history run, st => MemoryStore.history run st

end Memory
end Runbook
