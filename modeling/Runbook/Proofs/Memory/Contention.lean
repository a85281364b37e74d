import Mathlib.Data.List.Nodup
import Mathlib.Data.List.Pairwise
import Runbook.Proofs.Memory.Log
import Runbook.Proofs.Sorted

/-!
# Appends that contend for a run

The store of one process keeps the slices of a run under a lock. An append takes the lock of its
run, draws an id from the counter of all runs, pushes its slice, and lets go; between any two of
its steps the other appends may take theirs. Ids of different runs are therefore drawn and pushed
in any order. Within a run the lock is held from before an id is drawn until after its slice is
there, so that the slices stand in the order of the ids, and both in the order of the lock.
-/

set_option autoImplicit false

namespace Runbook.Memory

/-! ## 1. A table in order -/

namespace RunTable

/-- All slices, run by run. -/
def slices (t : RunTable) : List Slice := t.runs.flatMap (·.2)

/-- Ids ascend within each run, repeat nowhere, and have all been drawn. -/
structure Orderly (t : RunTable) : Prop where
  distinct : t.runs.names.Nodup
  own : ∀ run, ∀ s ∈ t.slicesOf run, s.run = run
  ascending : ∀ run, (t.slicesOf run).Pairwise (·.id < ·.id)
  drawn : ∀ run, ∀ s ∈ t.slicesOf run, s.id ≤ t.lastId
  apart : ∀ run run', ∀ s ∈ t.slicesOf run, ∀ s' ∈ t.slicesOf run', s.id = s'.id → run = run'

theorem Orderly.empty : ({} : RunTable).Orderly where
  distinct := List.nodup_nil
  own _ _ h := absurd h List.not_mem_nil
  ascending _ := List.Pairwise.nil
  drawn _ _ h := absurd h List.not_mem_nil
  apart _ _ _ h := absurd h List.not_mem_nil

theorem slicesOf_of_mem {t : RunTable} (distinct : t.runs.names.Nodup) {run : RunId}
    {l : List Slice} (h : (run, l) ∈ t.runs) : t.slicesOf run = l := by
  rw [slicesOf, Fields.get?_of_mem distinct h, Option.getD_some]

theorem mem_slices {t : RunTable} (distinct : t.runs.names.Nodup) {s : Slice} :
    s ∈ t.slices ↔ ∃ run, s ∈ t.slicesOf run := by
  rw [slices, List.mem_flatMap]
  constructor
  · rintro ⟨⟨run, l⟩, he, hs⟩
    exact ⟨run, by rwa [slicesOf_of_mem distinct he]⟩
  · rintro ⟨run, hs⟩
    cases hg : Fields.get? run t.runs with
    | none =>
      rw [slicesOf, hg] at hs
      cases hs
    | some l =>
      rw [slicesOf, hg] at hs
      exact ⟨(run, l), Fields.mem_of_get? hg, hs⟩

/-- A purge leaves of each run what is young enough. -/
theorem slicesOf_purge {t : RunTable} (distinct : t.runs.names.Nodup) (cutoff : Instant)
    (run : RunId) : (t.purge cutoff).2.slicesOf run =
      (t.slicesOf run).filter fun s => cutoff ≤ s.createdAt := by
  simp only [slicesOf, purge]
  generalize t.runs = runs at distinct
  induction runs with
  | nil => rfl
  | cons e rest ih =>
    rw [Fields.names, List.map_cons, List.nodup_cons] at distinct
    obtain ⟨new, distinct⟩ := distinct
    have ih := ih distinct
    rw [List.map_cons, List.filter_cons, Fields.get?_cons]
    by_cases hr : e.1 = run
    · subst hr
      have gone : Fields.get? e.1 ((rest.map fun e =>
          (e.1, e.2.filter fun s => cutoff ≤ s.createdAt)).filter fun e => !e.2.isEmpty) = none := by
        refine Option.not_isSome_iff_eq_none.mp fun there => new ?_
        obtain ⟨l, hl⟩ := Option.isSome_iff_exists.mp there
        obtain ⟨e', he', same⟩ := List.mem_map.mp (List.mem_of_mem_filter (Fields.mem_of_get? hl))
        exact List.mem_map.mpr ⟨e', he', (Prod.mk.inj same).1⟩
      split
      · simp [Fields.get?_cons]
      · next none_left =>
        have none_left : (e.2.filter fun s => decide (cutoff ≤ s.createdAt)) = [] := by
          simpa using none_left
        simp [gone, none_left]
    · split
      · simpa [Fields.get?_cons, hr] using ih
      · simpa [hr] using ih

theorem Orderly.purge {t : RunTable} (h : t.Orderly) (cutoff : Instant) :
    (t.purge cutoff).2.Orderly where
  distinct := by
    have sub : ((t.purge cutoff).2.runs.names).Sublist t.runs.names := by
      have := (List.filter_sublist (p := fun e : RunId × List Slice => !e.2.isEmpty)
        (l := t.runs.map fun e => (e.1, e.2.filter fun s => cutoff ≤ s.createdAt))).map Prod.fst
      simpa [Fields.names, RunTable.purge, Function.comp_def] using this
    exact h.distinct.sublist sub
  own run s hs := by
    rw [slicesOf_purge h.distinct] at hs
    exact h.own run s (List.mem_of_mem_filter hs)
  ascending run := by
    rw [slicesOf_purge h.distinct]
    exact (h.ascending run).filter _
  drawn run s hs := by
    rw [slicesOf_purge h.distinct] at hs
    exact h.drawn run s (List.mem_of_mem_filter hs)
  apart run run' s hs s' hs' := by
    rw [slicesOf_purge h.distinct] at hs hs'
    exact h.apart run run' s (List.mem_of_mem_filter hs) s' (List.mem_of_mem_filter hs')

/-- No id is repeated, within a run or across runs. -/
theorem Orderly.nodup_ids {t : RunTable} (h : t.Orderly) : (t.slices.map (·.id)).Nodup := by
  rw [List.Nodup, List.pairwise_map, slices, List.pairwise_flatMap]
  constructor
  · rintro ⟨run, l⟩ he
    have ascending := h.ascending run
    rw [slicesOf_of_mem h.distinct he] at ascending
    exact ascending.imp fun lt => Nat.ne_of_lt lt
  · refine (List.pairwise_map.mp h.distinct).imp_of_mem ?_
    rintro ⟨run, l⟩ ⟨run', l'⟩ he he' ne s hs s' hs' same
    rw [← slicesOf_of_mem h.distinct he] at hs
    rw [← slicesOf_of_mem h.distinct he'] at hs'
    exact ne (h.apart run run' s hs s' hs' same)

end RunTable

/-- Under an id that is not repeated stands the one slice that has it. -/
theorem filter_id_eq_singleton {l : List Slice} (distinct : (l.map (·.id)).Nodup) {s : Slice}
    (h : s ∈ l) : l.filter (fun x => x.id == s.id) = [s] := by
  induction l with
  | nil => cases h
  | cons x rest ih =>
    rw [List.map_cons, List.nodup_cons] at distinct
    obtain ⟨new, distinct⟩ := distinct
    rcases List.mem_cons.mp h with rfl | h
    · have none_left : rest.filter (fun x => x.id == s.id) = [] := by
        refine List.filter_eq_nil_iff.mpr fun x hx same => new ?_
        exact List.mem_map.mpr ⟨x, hx, eq_of_beq same⟩
      simp [none_left]
    · have other : (x.id == s.id) = false :=
        beq_false_of_ne fun same => new (List.mem_map.mpr ⟨s, h, same.symm⟩)
      simp [other, ih distinct h]

/-! ## 2. Recency is the order of appends -/

/-- Slices by their ids, the newest first. -/
def newestFirst (l : List Slice) : List Slice := l.mergeSort fun a b => b.id ≤ a.id

theorem newestFirst_of_ascending {l : List Slice} (h : l.Pairwise (·.id < ·.id)) :
    newestFirst l = l.reverse := by
  have descending : l.reverse.Pairwise fun a b => decide (b.id ≤ a.id) :=
    List.pairwise_reverse.mpr (h.imp fun lt => decide_eq_true (Nat.le_of_lt lt))
  have distinct : (l.map (·.id)).Nodup := List.pairwise_map.mpr (h.imp fun lt => Nat.ne_of_lt lt)
  refine mergeSort_eq (fun a b c => ?_) (fun a b => ?_) (fun a ha b hb ba ab => ?_)
    l.reverse_perm descending
  · simpa using fun ab bc => Nat.le_trans bc ab
  · simpa using Nat.le_total b.id a.id
  · -- one id stands for one slice
    exact List.inj_on_of_nodup_map distinct ha hb
      (Nat.le_antisymm (of_decide_eq_true ab) (of_decide_eq_true ba))

namespace RunTable

/-- What a query answers is sorted by id, though the store does not look at the ids. -/
theorem Orderly.query_eq {t : RunTable} (h : t.Orderly) (q : SliceQuery) :
    t.query q = upTo q.limit (newestFirst ((t.slicesOf q.run).filter q.accepts)) := by
  rw [query, newestFirst_of_ascending ((h.ascending q.run).filter _)]

/-- A history holds all slices of its run, by their ids. -/
theorem Orderly.history_eq {t : RunTable} (h : t.Orderly) (run : RunId) :
    t.history run = t.slicesOf run := by
  have all : (t.slicesOf run).filter (SliceQuery.accepts { run }) = t.slicesOf run := by
    refine List.filter_eq_self.mpr fun s hs => ?_
    simp [SliceQuery.accepts, h.own run s hs]
  rw [history, query, upTo, List.reverse_reverse, all]

/-! ## 3. The steps of one append -/

/-- Makes the place of a run, if it has none yet, as its lock is taken. -/
def enter (run : RunId) (t : RunTable) : RunTable :=
  { t with runs := Fields.put run (t.slicesOf run) t.runs }

@[simp] theorem lastId_enter (run : RunId) (t : RunTable) : (t.enter run).lastId = t.lastId := rfl

@[simp] theorem slicesOf_enter (run r : RunId) (t : RunTable) :
    (t.enter run).slicesOf r = t.slicesOf r := by
  by_cases h : run = r
  · subst h
    rw [slicesOf, enter, Fields.get?_put_self, Option.getD_some]
  · rw [slicesOf, enter, Fields.get?_put_of_ne _ _ h]
    rfl

@[simp] theorem lastId_drawId (t : RunTable) : t.drawId.2.lastId = t.lastId + 1 := rfl

@[simp] theorem slicesOf_drawId (t : RunTable) (run : RunId) :
    t.drawId.2.slicesOf run = t.slicesOf run := rfl

@[simp] theorem lastId_push (s : Slice) (t : RunTable) : (t.push s).lastId = t.lastId := rfl

/-- An append that nobody disturbs takes its steps one after another. -/
theorem append_eq (s : NewSlice) (now : Instant) (t : RunTable) :
    t.append s now = ((t.enter s.run).drawId.1,
      (t.enter s.run).drawId.2.push (Slice.ofNew (t.enter s.run).drawId.1 now s)) := by
  have there : ((t.enter s.run).drawId.2).slicesOf s.run = t.slicesOf s.run := by simp
  refine Prod.ext rfl ?_
  rw [push, show (Slice.ofNew _ now s).run = s.run from rfl, there]
  simp only [enter, drawId, Fields.put_put_self]
  rfl

theorem Orderly.enter {t : RunTable} (h : t.Orderly) (run : RunId) : (t.enter run).Orderly where
  distinct := Fields.nodup_names_put h.distinct ..
  own r := by simpa using h.own r
  ascending r := by simpa using h.ascending r
  drawn r := by simpa using h.drawn r
  apart r r' := by simpa using h.apart r r'

theorem Orderly.draw {t : RunTable} (h : t.Orderly) : t.drawId.2.Orderly where
  distinct := h.distinct
  own := h.own
  ascending := h.ascending
  drawn r s hs := Nat.le_succ_of_le (h.drawn r s hs)
  apart := h.apart

theorem mem_slicesOf_push {t : RunTable} {s x : Slice} {run : RunId} :
    x ∈ (t.push s).slicesOf run ↔ x ∈ t.slicesOf run ∨ (run = s.run ∧ x = s) := by
  by_cases h : s.run = run
  · subst h
    simp [slicesOf_push_self]
  · simp [slicesOf_push_of_ne t h, Ne.symm h]

/-- The id of a slice that is pushed is drawn, new, and behind those of its run. -/
theorem Orderly.push {t : RunTable} (h : t.Orderly) {s : Slice} (drawn : s.id ≤ t.lastId)
    (new : ∀ run, ∀ x ∈ t.slicesOf run, x.id ≠ s.id)
    (behind : ∀ x ∈ t.slicesOf s.run, x.id < s.id) : (t.push s).Orderly where
  distinct := Fields.nodup_names_put h.distinct ..
  own r x hx := by
    rcases mem_slicesOf_push.mp hx with hx | ⟨rfl, rfl⟩
    · exact h.own r x hx
    · rfl
  ascending r := by
    by_cases hr : s.run = r
    · subst hr
      rw [slicesOf_push_self, List.pairwise_append]
      exact ⟨h.ascending _, List.pairwise_singleton .., fun x hx y hy =>
        List.mem_singleton.mp hy ▸ behind x hx⟩
    · rw [slicesOf_push_of_ne t hr]
      exact h.ascending r
  drawn r x hx := by
    rcases mem_slicesOf_push.mp hx with hx | ⟨-, rfl⟩
    · exact h.drawn r x hx
    · exact drawn
  apart r r' x hx y hy same := by
    rcases mem_slicesOf_push.mp hx with old | ⟨rfl, rfl⟩ <;>
      rcases mem_slicesOf_push.mp hy with old' | ⟨rfl, rfl⟩
    · exact h.apart r r' x old y old' same
    · exact absurd same (new r x old)
    · exact absurd same.symm (new r' y old')
    · rfl

end RunTable

/-! ## 4. Contention -/

/-- What an append has in hand before it asks for the lock. -/
structure Append where
  slice : NewSlice
  time : Instant

namespace Append

def run (a : Append) : RunId := a.slice.run

/-- The slice under the id that was drawn for it. -/
def stored (a : Append) (id : Nat) : Slice := Slice.ofNew id a.time a.slice

end Append

/-- How far an append has come. -/
inductive Phase where
  | waiting
  /-- It has the lock, and no id yet. -/
  | holding
  /-- It has an id, and its slice is not there yet. -/
  | numbered (id : Nat)
  /-- Its slice is there, and it still has the lock. -/
  | stored (id : Nat)
  | finished (id : Nat)
  deriving DecidableEq

namespace Phase

/-- The append has the lock of its run. -/
def Locks : Phase → Prop
  | .holding | .numbered _ | .stored _ => True
  | .waiting | .finished _ => False

instance : DecidablePred Locks
  | .holding | .numbered _ | .stored _ => .isTrue trivial
  | .waiting | .finished _ => .isFalse id

/-- The id under which the slice is there. -/
def storedId? : Phase → Option Nat
  | .stored id | .finished id => some id
  | .waiting | .holding | .numbered _ => none

end Phase

/-- A table, and how far each append to it has come. -/
structure Contention (ι : Type) where
  table : RunTable
  phase : ι → Phase
  /-- The appends that have got their locks, in that order. -/
  taken : List ι

namespace Contention

variable {ι : Type} {appends : ι → Append} {start : RunTable} {c c' : Contention ι}

/-- Nobody has begun. -/
def before (start : RunTable) : Contention ι :=
  { table := start, phase := fun _ => .waiting, taken := [] }

/-- The slice of an append, once it is there. -/
def slice? (appends : ι → Append) (c : Contention ι) (i : ι) : Option Slice :=
  (c.phase i).storedId?.map (appends i).stored

/-- The appends to a run that have got its lock, in that order. -/
def turns (appends : ι → Append) (c : Contention ι) (run : RunId) : List ι :=
  c.taken.filter fun i => (appends i).run == run

section
variable [DecidableEq ι]

/-- The append `i` has come to the phase `p`. -/
def moved (c : Contention ι) (i : ι) (p : Phase) : Contention ι :=
  { c with phase := Function.update c.phase i p }

/-- One step of one append. -/
inductive Step (appends : ι → Append) : Contention ι → Contention ι → Prop
  /-- The lock of a run is taken while no other append has it. -/
  | take {c : Contention ι} (i : ι) (waits : c.phase i = .waiting)
      (free : ∀ j, (appends j).run = (appends i).run → ¬ (c.phase j).Locks) :
      Step appends c { c.moved i .holding with
        table := c.table.enter (appends i).run, taken := c.taken ++ [i] }
  | draw {c : Contention ι} (i : ι) (holds : c.phase i = .holding) :
      Step appends c { c.moved i (.numbered c.table.drawId.1) with table := c.table.drawId.2 }
  | push {c : Contention ι} (i : ι) (id : Nat) (has : c.phase i = .numbered id) :
      Step appends c { c.moved i (.stored id) with table := c.table.push ((appends i).stored id) }
  | release {c : Contention ι} (i : ι) (id : Nat) (done : c.phase i = .stored id) :
      Step appends c (c.moved i (.finished id))

/-- What the steps of the appends lead to, in whatever order they are taken. -/
inductive Reaches (appends : ι → Append) (start : RunTable) : Contention ι → Prop
  | before : Reaches appends start (before start)
  | step {c c' : Contention ι} (h : Reaches appends start c) (s : Step appends c c') :
      Reaches appends start c'

end

/-! ## 5. What holds at every moment -/

/-- The lock serializes the appends to each run. -/
structure Serialized (appends : ι → Append) (start : RunTable) (c : Contention ι) : Prop where
  orderly : c.table.Orderly
  took : ∀ i, i ∈ c.taken ↔ c.phase i ≠ .waiting
  once : c.taken.Nodup
  listed : ∀ run, c.table.slicesOf run =
    start.slicesOf run ++ (c.turns appends run).filterMap (c.slice? appends)
  /-- Only the latest of a run has its lock. -/
  turn : ∀ i, (c.phase i).Locks → (c.turns appends (appends i).run).getLast? = some i
  /-- An id in hand is nowhere in the table, and behind all ids of its run. -/
  fresh : ∀ i id, c.phase i = .numbered id → id ≤ c.table.lastId ∧
    (∀ run, ∀ x ∈ c.table.slicesOf run, x.id ≠ id) ∧
    ∀ x ∈ c.table.slicesOf (appends i).run, x.id < id
  single : ∀ i j id, c.phase i = .numbered id → c.phase j = .numbered id → i = j

namespace Serialized

theorem before (h : start.Orderly) : Serialized appends start (before start) where
  orderly := h
  took i := by simp [Contention.before]
  once := List.nodup_nil
  listed run := by simp [Contention.before, turns]
  turn i locks := locks.elim
  fresh i id has := by cases has
  single i j id has := by cases has

/-- Two appends to one run never have its lock at once. -/
theorem alone (h : Serialized appends start c) {i j : ι} (hi : (c.phase i).Locks)
    (hj : (c.phase j).Locks) (same : (appends i).run = (appends j).run) : i = j := by
  have last := h.turn i hi
  rw [same, h.turn j hj] at last
  exact (Option.some.inj last).symm

theorem mem_turns (h : Serialized appends start c) {i : ι} (begun : c.phase i ≠ .waiting) :
    i ∈ c.turns appends (appends i).run :=
  List.mem_filter.mpr ⟨(h.took i).mpr begun, beq_self_eq_true _⟩

/-- A slice that is there stands in its run. -/
theorem mem_slicesOf (h : Serialized appends start c) {i : ι} {id : Nat}
    (there : (c.phase i).storedId? = some id) :
    (appends i).stored id ∈ c.table.slicesOf (appends i).run := by
  have begun : c.phase i ≠ .waiting := fun waits => by rw [waits] at there; cases there
  rw [h.listed]
  refine List.mem_append_right _ (List.mem_filterMap.mpr ⟨i, h.mem_turns begun, ?_⟩)
  rw [slice?, there]
  rfl

/-- Two appends never get the same id. -/
theorem eq_of_storedId? (h : Serialized appends start c) {i j : ι} {id : Nat}
    (hi : (c.phase i).storedId? = some id) (hj : (c.phase j).storedId? = some id) : i = j := by
  have begun : ∀ k, (c.phase k).storedId? = some id → c.phase k ≠ .waiting := by
    intro k there waits
    rw [waits] at there
    cases there
  have run := h.orderly.apart _ _ _ (h.mem_slicesOf hi) _ (h.mem_slicesOf hj) rfl
  have ascending := h.orderly.ascending (appends i).run
  rw [h.listed, List.pairwise_append, List.pairwise_filterMap] at ascending
  by_contra ne
  have differ : (c.turns appends (appends i).run).Pairwise fun a b =>
      (c.phase a).storedId? = some id → (c.phase b).storedId? ≠ some id := by
    refine ascending.2.1.imp fun {a b} lt ha hb => ?_
    have shown : ∀ k, (c.phase k).storedId? = some id →
        c.slice? appends k = some ((appends k).stored id) := fun k there => by
      rw [slice?, there]
      rfl
    exact Nat.lt_irrefl id (lt _ (shown a ha) _ (shown b hb))
  have symm : Std.Symm fun a b : ι =>
      (c.phase a).storedId? = some id → (c.phase b).storedId? ≠ some id :=
    ⟨fun a b ab hb ha => ab ha hb⟩
  exact differ.forall (h.mem_turns (begun i hi)) (run ▸ h.mem_turns (begun j hj)) ne hi hj

end Serialized

/-! ## 6. Every step keeps it -/

variable [DecidableEq ι]

theorem phase_moved_self (i : ι) (p : Phase) : (c.moved i p).phase i = p :=
  Function.update_self ..

theorem phase_moved_of_ne {i j : ι} (p : Phase) (h : j ≠ i) : (c.moved i p).phase j = c.phase j :=
  Function.update_of_ne h ..

/-- Whoever is in a phase that was not just reached has been in it before. -/
theorem phase_of_moved {i j : ι} {p q : Phase} (h : (c.moved i p).phase j = q) (ne : p ≠ q) :
    j ≠ i ∧ c.phase j = q := by
  have other : j ≠ i := by
    rintro rfl
    exact ne ((phase_moved_self j p).symm.trans h)
  exact ⟨other, (phase_moved_of_ne p other).symm.trans h⟩

theorem turns_take (i : ι) (p : Phase) (t : RunTable) (run : RunId) :
    turns appends { c.moved i p with table := t, taken := c.taken ++ [i] } run =
      c.turns appends run ++ if (appends i).run = run then [i] else [] := by
  by_cases h : (appends i).run = run <;> simp [turns, h]

theorem slice?_moved_of_ne {i j : ι} (p : Phase) (h : j ≠ i) :
    slice? appends (c.moved i p) j = c.slice? appends j := by
  rw [slice?, slice?, phase_moved_of_ne p h]

/-- A phase that shows as much of the slice as the one before changes no listing. -/
theorem slice?_moved (appends : ι → Append) {i : ι} {p : Phase}
    (h : (c.phase i).storedId? = p.storedId?) :
    slice? appends (c.moved i p) = c.slice? appends := by
  funext j
  by_cases hj : j = i
  · subst hj
    rw [slice?, slice?, phase_moved_self, h]
  · exact slice?_moved_of_ne p hj

namespace Serialized

/-- All that moves is one append that has begun: the order of the locks stays. -/
theorem took_moved (h : Serialized appends start c) {i : ι} {p : Phase}
    (begun : c.phase i ≠ .waiting) (goes : p ≠ .waiting) (j : ι) :
    j ∈ c.taken ↔ (c.moved i p).phase j ≠ .waiting := by
  by_cases hj : j = i
  · subst hj
    rw [phase_moved_self]
    exact ⟨fun _ => goes, fun _ => (h.took j).mpr begun⟩
  · rw [phase_moved_of_ne p hj]
    exact h.took j

theorem turn_moved (h : Serialized appends start c) {i : ι} (p : Phase)
    (locked : (c.phase i).Locks) (j : ι) (locks : ((c.moved i p).phase j).Locks) :
    (c.turns appends (appends j).run).getLast? = some j := by
  by_cases hj : j = i
  · subst hj
    exact h.turn j locked
  · rw [phase_moved_of_ne p hj] at locks
    exact h.turn j locks

theorem single_moved (h : Serialized appends start c) {i : ι} {p : Phase}
    (other : ∀ id, p ≠ .numbered id) (j k : ι) (id : Nat)
    (hj : (c.moved i p).phase j = .numbered id) (hk : (c.moved i p).phase k = .numbered id) :
    j = k :=
  h.single j k id (phase_of_moved hj (other id)).2 (phase_of_moved hk (other id)).2

theorem take (h : Serialized appends start c) {i : ι} (waits : c.phase i = .waiting)
    (free : ∀ j, (appends j).run = (appends i).run → ¬ (c.phase j).Locks) :
    Serialized appends start { c.moved i .holding with
      table := c.table.enter (appends i).run, taken := c.taken ++ [i] } where
  orderly := h.orderly.enter _
  took j := by
    by_cases hj : j = i
    · subst hj
      simp [phase_moved_self]
    · simp [phase_moved_of_ne, hj, h.took j]
  once := by
    have new : i ∉ c.taken := fun mem => (h.took i).mp mem waits
    exact List.nodup_append.mpr ⟨h.once, List.nodup_singleton i, fun a ha b hb =>
      List.mem_singleton.mp hb ▸ fun same => new (same ▸ ha)⟩
  listed run := by
    -- the append that gets the lock has no slice to show yet
    have nothing : c.slice? appends i = none := by simp [slice?, waits, Phase.storedId?]
    have shown := slice?_moved appends (p := .holding)
      (show (c.phase i).storedId? = Phase.holding.storedId? by rw [waits]; rfl)
    rw [turns_take, RunTable.slicesOf_enter, h.listed run, List.filterMap_append,
      show slice? appends { c.moved i .holding with
        table := c.table.enter (appends i).run, taken := c.taken ++ [i] } = _ from shown]
    split <;> simp [nothing]
  turn j locks := by
    rw [turns_take]
    by_cases hj : j = i
    · subst hj
      simp
    · have locks : (c.phase j).Locks := phase_moved_of_ne (c := c) .holding hj ▸ locks
      rw [if_neg fun same => free j same.symm locks, List.append_nil]
      exact h.turn j locks
  fresh j id has := by
    simpa using h.fresh j id (phase_of_moved has (by simp)).2
  single := h.single_moved (by simp)

theorem draw (h : Serialized appends start c) {i : ι} (holds : c.phase i = .holding) :
    Serialized appends start
      { c.moved i (.numbered c.table.drawId.1) with table := c.table.drawId.2 } where
  orderly := h.orderly.draw
  took := h.took_moved (by simp [holds]) (by simp)
  once := h.once
  listed run := by
    have shown := slice?_moved appends (p := .numbered c.table.drawId.1)
      (show (c.phase i).storedId? = _ by rw [holds]; rfl)
    exact (h.listed run).trans (by rw [← shown]; rfl)
  turn := h.turn_moved _ (by rw [holds]; trivial)
  fresh j id has := by
    by_cases hj : j = i
    · -- the id just drawn is larger than all that have been drawn before
      subst hj
      obtain rfl : c.table.lastId + 1 = id := by
        have := (phase_moved_self (c := c) j (.numbered c.table.drawId.1)).symm.trans has
        exact Phase.numbered.inj this
      have below : ∀ run, ∀ x ∈ c.table.slicesOf run, x.id < c.table.lastId + 1 :=
        fun run x hx => Nat.lt_succ_of_le (h.orderly.drawn run x hx)
      exact ⟨Nat.le_refl _, fun run x hx => Nat.ne_of_lt (below run x hx), below _⟩
    · obtain ⟨drawn, rest⟩ := h.fresh j id ((phase_moved_of_ne _ hj).symm.trans has)
      exact ⟨Nat.le_succ_of_le drawn, rest⟩
  single j k id hj hk := by
    -- an id that somebody has in hand was drawn before this one
    have old : ∀ x, x ≠ i → (c.moved i (.numbered c.table.drawId.1)).phase x = .numbered id →
        c.phase x = .numbered id ∧ id ≤ c.table.lastId := by
      intro x hx has
      have has := (phase_moved_of_ne _ hx).symm.trans has
      exact ⟨has, (h.fresh x id has).1⟩
    have own : ∀ x, x = i → (c.moved i (.numbered c.table.drawId.1)).phase x = .numbered id →
        id = c.table.lastId + 1 := by
      rintro x rfl has
      exact (Phase.numbered.inj ((phase_moved_self x _).symm.trans has)).symm
    by_cases hji : j = i <;> by_cases hki : k = i
    · exact hji.trans hki.symm
    · have := own j hji hj
      have := (old k hki hk).2
      omega
    · have := own k hki hk
      have := (old j hji hj).2
      omega
    · exact h.single j k id (old j hji hj).1 (old k hki hk).1

/-- The slice that is pushed comes behind all others of its run. -/
theorem listed_push (h : Serialized appends start c) {i : ι} {id : Nat}
    (has : c.phase i = .numbered id) (run : RunId) :
    (c.table.push ((appends i).stored id)).slicesOf run = start.slicesOf run ++
      (c.turns appends run).filterMap (slice? appends (c.moved i (.stored id))) := by
  have others : ∀ l : List ι, i ∉ l →
      l.filterMap (slice? appends (c.moved i (.stored id))) =
        l.filterMap (c.slice? appends) := fun l new =>
    List.filterMap_congr fun j hj => slice?_moved_of_ne _ fun same => new (same ▸ hj)
  by_cases hr : (appends i).run = run
  · subst hr
    -- its turn is the last, and it had nothing to show before
    obtain ⟨front, hfront⟩ := List.getLast?_eq_some_iff.mp (h.turn i (by rw [has]; trivial))
    have new : i ∉ front := by
      have nodup : (c.turns appends (appends i).run).Nodup := h.once.filter _
      rw [hfront, List.nodup_append] at nodup
      exact fun mem => nodup.2.2 i mem i (List.mem_singleton_self i) rfl
    have nothing : c.slice? appends i = none := by rw [slice?, has]; rfl
    have there : slice? appends (c.moved i (.stored id)) i = some ((appends i).stored id) := by
      rw [slice?, phase_moved_self]
      rfl
    have before := h.listed (appends i).run
    rw [hfront, List.filterMap_append] at before
    rw [show (appends i).run = ((appends i).stored id).run from rfl, RunTable.slicesOf_push_self,
      show ((appends i).stored id).run = (appends i).run from rfl, before, hfront,
      List.filterMap_append, others front new]
    simp [nothing, there]
  · rw [RunTable.slicesOf_push_of_ne _ hr, h.listed run, others]
    exact fun mem => hr (eq_of_beq (List.mem_filter.mp mem).2)

theorem push (h : Serialized appends start c) {i : ι} {id : Nat}
    (has : c.phase i = .numbered id) :
    Serialized appends start
      { c.moved i (.stored id) with table := c.table.push ((appends i).stored id) } where
  orderly := by
    obtain ⟨drawn, new, behind⟩ := h.fresh i id has
    exact h.orderly.push drawn new behind
  took := h.took_moved (by simp [has]) (by simp)
  once := h.once
  listed := h.listed_push has
  turn := h.turn_moved _ (by rw [has]; trivial)
  fresh j id' hj := by
    obtain ⟨ne, hj⟩ := phase_of_moved hj (by simp)
    obtain ⟨drawn, new, behind⟩ := h.fresh j id' hj
    refine ⟨drawn, fun run x hx => ?_, fun x hx => ?_⟩
    · rcases RunTable.mem_slicesOf_push.mp hx with hx | ⟨-, rfl⟩
      · exact new run x hx
      · -- nobody else has the id that was pushed
        rintro rfl
        exact ne (h.single j i _ hj has)
    · rcases RunTable.mem_slicesOf_push.mp hx with hx | ⟨same, -⟩
      · exact behind x hx
      · -- an append to the same run has no id while this one has the lock
        exact absurd (h.alone (by rw [hj]; trivial) (by rw [has]; trivial) same) ne
  single := h.single_moved (by simp)

theorem release (h : Serialized appends start c) {i : ι} {id : Nat}
    (done : c.phase i = .stored id) : Serialized appends start (c.moved i (.finished id)) where
  orderly := h.orderly
  took := h.took_moved (by simp [done]) (by simp)
  once := h.once
  listed run := by
    rw [slice?_moved appends (by rw [done]; rfl)]
    exact h.listed run
  turn := h.turn_moved _ (by rw [done]; trivial)
  fresh j id' hj := h.fresh j id' (phase_of_moved hj (by simp)).2
  single := h.single_moved (by simp)

theorem step (h : Serialized appends start c) (s : Step appends c c') :
    Serialized appends start c' := by
  cases s with
  | take i waits free => exact h.take waits free
  | draw i holds => exact h.draw holds
  | push i id has => exact h.push has
  | release i id done => exact h.release done

theorem reaches (ok : start.Orderly) (h : Reaches appends start c) :
    Serialized appends start c := by
  induction h with
  | before => exact .before ok
  | step _ s ih => exact ih.step s

end Serialized

/-! ## 7. Every interleaving -/

/-- **The lock of a run makes its appends one sequence.** Whatever steps the appends have taken, and
in whatever order: the ids of each run ascend, and no id stands twice in the table. An append that
has finished has its id to itself, and its slice stands in the table once. The history of a run is
what it was before, followed by the slices of the appends in the order in which they got its lock;
and all that is listed is sorted by id. -/
theorem appends_in_turn (ok : start.Orderly) (h : Reaches appends start c) :
    (∀ run, (c.table.slicesOf run).Pairwise (·.id < ·.id)) ∧
    (c.table.slices.map (·.id)).Nodup ∧
    (∀ i id, c.phase i = .finished id →
      c.table.slices.filter (fun s => s.id == id) = [(appends i).stored id] ∧
      ∀ j, c.phase j = .finished id → j = i) ∧
    (∀ run, c.table.history run =
      start.history run ++ (c.turns appends run).filterMap (c.slice? appends)) ∧
    ∀ q, c.table.query q =
      upTo q.limit (newestFirst ((c.table.slicesOf q.run).filter q.accepts)) := by
  have inv := Serialized.reaches ok h
  have nodup := inv.orderly.nodup_ids
  refine ⟨inv.orderly.ascending, nodup, fun i id finished => ⟨?_, fun j same => ?_⟩,
    fun run => ?_, inv.orderly.query_eq⟩
  · have there : (appends i).stored id ∈ c.table.slices :=
      (RunTable.mem_slices inv.orderly.distinct).mpr
        ⟨_, inv.mem_slicesOf (by rw [finished]; rfl)⟩
    exact filter_id_eq_singleton nodup there
  · exact inv.eq_of_storedId? (by rw [same]; rfl) (by rw [finished]; rfl)
  · rw [inv.orderly.history_eq, ok.history_eq, inv.listed]

/-- Two appends to the run `a`, and one to `b` between them. -/
def crossing (i : Fin 3) : Append :=
  let run : RunId := if i = 2 then "b" else "a"
  { slice := { run, step := "s", classification := .output, content := toString i.val }, time := ⟨0⟩ }

/-- The append to `b` draws its id first and pushes last; those to `a` stand in the order of the
lock. -/
theorem appends_in_turn_crossing : ∃ c, Reaches crossing {} c ∧ c.phase 1 = .finished 3 ∧
    (c.table.history "a").map (fun s => (s.id, s.content)) = [(2, "0"), (3, "1")] ∧
    (c.table.history "b").map (fun s => (s.id, s.content)) = [(1, "2")] := by
  have nobody : Reaches crossing {} (before {}) := .before
  have first := (nobody.step (.take 0 rfl (by decide))).step (.take 2 rfl (by decide))
  have drawn := (first.step (.draw 2 rfl)).step (.draw 0 rfl)
  have second := ((drawn.step (.push 0 2 rfl)).step (.release 0 2 rfl)).step
    (.take 1 rfl (by decide))
  have pushed := ((second.step (.draw 1 rfl)).step (.push 1 3 rfl)).step (.push 2 1 rfl)
  have last := (pushed.step (.release 1 3 rfl)).step (.release 2 1 rfl)
  have listed := (appends_in_turn .empty last).2.2.2.1
  refine ⟨_, last, rfl, ?_, ?_⟩
  · rw [listed "a"]
    decide
  · rw [listed "b"]
    decide

end Contention
end Runbook.Memory
