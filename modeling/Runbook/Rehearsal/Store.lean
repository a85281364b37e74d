import Runbook.Memory.Store
import Runbook.Rehearsal.Script

/-!
# Stores that fail

For a rehearsal, a store can be made to fail at given operations. Appends are counted from 1, and
so are reads, which are queries, looks at the latest slice, and histories. A failed operation does
nothing.
-/

set_option autoImplicit false

namespace Runbook.Rehearsal

/-- Which operations fail: those of the given numbers, and all after a number. -/
structure Faults where
  numbers : List Nat := []
  after : Option Nat := none
  deriving Repr, Inhabited

def Faults.hit (f : Faults) (n : Nat) : Bool := f.numbers.contains n || f.after.any (· < n)

/-- A store that fails at some operations. -/
structure FaultyStore (σ : Type) where
  store : σ
  writeFaults : Faults := {}
  readFaults : Faults := {}
  writeError : StoreError := .write "disk full"
  readError : StoreError := .read "unreadable"
  writes : Nat := 0
  reads : Nat := 0

namespace FaultyStore

variable {σ : Type}

/-- Counts a read, and lets it through or fails it. -/
def reading {α : Type} (f : FaultyStore σ) (read : σ → Except StoreError α × σ) :
    Except StoreError α × FaultyStore σ :=
  let f := { f with reads := f.reads + 1 }
  if f.readFaults.hit f.reads then (.error f.readError, f)
  else
    let (r, store) := read f.store
    (r, { f with store })

instance [MemoryStore σ] : MemoryStore (FaultyStore σ) where
  append slice now f :=
    let f := { f with writes := f.writes + 1 }
    if f.writeFaults.hit f.writes then (.error f.writeError, f)
    else
      let (r, store) := MemoryStore.append slice now f.store
      (r, { f with store })
  query q f := f.reading (MemoryStore.query q)
  latest run f := f.reading (MemoryStore.latest run)
  history run f := f.reading (MemoryStore.history run)
  runs limit f := MemoryStore.runs limit f.store
  stats f := MemoryStore.stats f.store
  purge cutoff f :=
    let (r, store) := MemoryStore.purge cutoff f.store
    (r, { f with store })

end FaultyStore

/-- The faults that a script asks for under two names. -/
def faultsOf (script : Json) (numbers after : String) : Faults :=
  { numbers := (items script numbers).filterMap Json.nat?
    after := nat? script after }

/-- The error that a script asks for, or the usual one. -/
def errorOf (script : Json) (usual : StoreError) : StoreError :=
  match str? script "kind" with
  | some "write" => .write "disk full"
  | some "read" => .read "unreadable"
  | some _ => .unavailable "offline"
  | none => usual

/-- A store that fails as a script says. -/
def faulty {σ : Type} (script : Json) (store : σ) : FaultyStore σ :=
  { store
    writeFaults := faultsOf script "fail_writes" "fail_writes_after"
    readFaults := faultsOf script "fail_reads" "fail_reads_after"
    writeError := errorOf script (.write "disk full")
    readError := errorOf script (.read "unreadable") }

end Runbook.Rehearsal
