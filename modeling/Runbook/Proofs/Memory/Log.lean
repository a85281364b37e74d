import Runbook.Memory.Recall
import Runbook.Memory.RowTable
import Runbook.Memory.RunTable
import Runbook.Rehearsal.Store

/-!
# What a store remembers

A store is a log of entries for each run, whatever it keeps them in: it gets longer by one entry
with each append that succeeds, and nothing else that a run can ask changes it. A query that is
answered lists the newest matching entries, and a history that is answered lists all of them.

Ids, metadata and times are left out of an entry. No law is about them, and the durable store
cannot even give all metadata back.

A tag that has a meaning can also be written as a tag of the user's own. The stores of tags cannot
tell the two apart, so the laws are for classifications in their proper form; a run has no others.
-/

set_option autoImplicit false

namespace Runbook

/-! ## 1. Entries -/

/-- The classification is in the form in which it is read back from its tag. -/
def Classification.Proper (c : Classification) : Prop := ofName c.name = c

theorem Classification.name_eq_iff {c : Classification} (h : c.Proper) (tag : String) :
    c.name = tag ↔ c = ofName tag := by
  constructor
  · rintro rfl
    exact h.symm
  · rintro rfl
    exact name_ofName tag

namespace Memory

/-- What a slice says, without its id, its time and its metadata. -/
structure Entry where
  step : String
  classification : Classification
  content : String

end Memory

open Memory

def NewSlice.entry (s : NewSlice) : Entry := ⟨s.step, s.classification, s.content⟩

def Slice.entry (s : Slice) : Entry := ⟨s.step, s.classification, s.content⟩

@[simp] theorem Slice.entry_ofNew (id : Nat) (now : Instant) (s : NewSlice) :
    (Slice.ofNew id now s).entry = s.entry := rfl

namespace SliceQuery

/-- The entry passes both filters. -/
def admits (q : SliceQuery) (e : Entry) : Bool :=
  (q.step.all fun n => n == e.step) && (q.classification.all fun c => c == e.classification)

/-- The query asks for a classification in its proper form, if for one at all. -/
def Proper (q : SliceQuery) : Prop := ∀ c, q.classification = some c → c.Proper

theorem accepts_eq (q : SliceQuery) (s : Slice) :
    q.accepts s = (s.run == q.run && q.admits s.entry) := by
  rw [accepts, Bool.and_assoc]
  rfl

end SliceQuery

/-- The queries of needs are proper. -/
theorem Need.query_proper (need : Need) (run : RunId) (limit : Option Nat) :
    SliceQuery.Proper { need.query run with limit } := by
  intro c hc
  cases need with
  | classification tag =>
    simp only [Need.query, Option.some.injEq] at hc
    subst hc
    rw [Classification.Proper, Classification.name_ofName]
  | userPrompt | parameters | toolOutput | step | lastOutput =>
    simp only [Need.query, Option.some.injEq] at hc
    subst hc
    rfl

namespace Memory

/-! ## 2. What a run records -/

theorem mem_startSlices {run : RunId} {workflow : String} {params : Fields Json} {s : NewSlice}
    (h : s ∈ startSlices run workflow params) :
    s.run = run ∧ (s.classification = .userPrompt ∨ s.classification = .parameters) := by
  rcases List.mem_append.mp h with h | h
  · obtain ⟨p, -, rfl⟩ := Option.map_eq_some_iff.mp (Option.mem_toList.mp h)
    exact ⟨rfl, .inl rfl⟩
  · rw [List.mem_singleton.mp h]
    exact ⟨rfl, .inr rfl⟩

/-- A step is recorded by its result, with the output of a success or the error of a failure. -/
theorem mem_stepSlices {run : RunId} {r : StepResult} {s : NewSlice} (h : s ∈ stepSlices run r) :
    s = resultSlice run r ∨
      (r.status = .success ∧ ∃ o, r.output = some o ∧ s = outputSlice run r o) ∨
      (r.status = .failed ∧ ∃ f, r.error = some f ∧ s = errorSlice run r f) := by
  rcases List.mem_cons.mp h with rfl | h
  · exact .inl rfl
  · have detail := Option.mem_toList.mp h
    unfold detailSlice? at detail
    split at detail
    · next success =>
      obtain ⟨o, ho, rfl⟩ := Option.map_eq_some_iff.mp detail
      exact .inr (.inl ⟨success, o, ho, rfl⟩)
    · next failed =>
      obtain ⟨f, hf, rfl⟩ := Option.map_eq_some_iff.mp detail
      exact .inr (.inr ⟨failed, f, hf, rfl⟩)
    · exact absurd detail (by simp)

theorem run_of_mem_stepSlices {run : RunId} {r : StepResult} {s : NewSlice}
    (h : s ∈ stepSlices run r) : s.run = run ∧ s.step = r.step ∧ s.classification.Proper := by
  rcases mem_stepSlices h with rfl | ⟨-, o, -, rfl⟩ | ⟨-, f, -, rfl⟩
  · exact ⟨rfl, rfl, rfl⟩
  · exact ⟨rfl, rfl, rfl⟩
  · exact ⟨rfl, rfl, rfl⟩

/-- Only a success has an output among its slices. -/
theorem success_of_output {run : RunId} {r : StepResult} {s : NewSlice}
    (h : s ∈ stepSlices run r) (output : s.classification = .output) : r.status = .success := by
  rcases mem_stepSlices h with rfl | ⟨success, -⟩ | ⟨-, f, -, rfl⟩
  · cases output
  · exact success
  · cases output

/-! ## 3. The laws -/

/-- A store that is a log of entries for each run. -/
class LogStore (σ : Type) [MemoryStore σ] where
  /-- The entries of a run, oldest first. -/
  entries : RunId → σ → List Entry
  append_ok {s : NewSlice} {now : Instant} {st st' : σ} {id : Nat}
    (h : MemoryStore.append s now st = (.ok id, st')) (proper : s.classification.Proper)
    (run : RunId) : entries run st' = entries run st ++ if s.run = run then [s.entry] else []
  append_error {s : NewSlice} {now : Instant} {st st' : σ} {e : StoreError}
    (h : MemoryStore.append s now st = (.error e, st')) (run : RunId) :
    entries run st' = entries run st
  query_keeps (q : SliceQuery) (st : σ) (run : RunId) :
    entries run (MemoryStore.query q st).2 = entries run st
  query_ok {q : SliceQuery} {st st' : σ} {found : List Slice}
    (h : MemoryStore.query q st = (.ok found, st')) (proper : q.Proper) :
    found.map Slice.entry = upTo q.limit ((entries q.run st).filter q.admits).reverse
  history_keeps (of : RunId) (st : σ) (run : RunId) :
    entries run (MemoryStore.history of st).2 = entries run st
  history_ok {run : RunId} {st st' : σ} {found : List Slice}
    (h : MemoryStore.history run st = (.ok found, st')) :
    found.map Slice.entry = entries run st

theorem map_upTo {α β : Type} (f : α → β) (limit : Option Nat) (items : List α) :
    (upTo limit items).map f = upTo limit (items.map f) := by
  cases limit with
  | none => rfl
  | some n => exact List.map_take

/-! ## 4. The store of one process -/

namespace RunTable

theorem slicesOf_push_self (t : RunTable) (s : Slice) :
    (t.push s).slicesOf s.run = t.slicesOf s.run ++ [s] := by
  rw [slicesOf, push, Fields.get?_put_self]
  rfl

theorem slicesOf_push_of_ne (t : RunTable) {s : Slice} {run : RunId} (h : s.run ≠ run) :
    (t.push s).slicesOf run = t.slicesOf run := by
  rw [slicesOf, push, Fields.get?_put_of_ne _ _ h]
  rfl

/-- The entries of a run; what stands in the place of another run is none of them. -/
def entriesOf (run : RunId) (t : RunTable) : List Entry :=
  ((t.slicesOf run).filter (·.run == run)).map Slice.entry

theorem entriesOf_append (s : NewSlice) (now : Instant) (t : RunTable) (run : RunId) :
    entriesOf run (t.append s now).2 =
      entriesOf run t ++ if s.run = run then [s.entry] else [] := by
  have drawn : ∀ r, (t.drawId).2.slicesOf r = t.slicesOf r := fun _ => rfl
  by_cases h : s.run = run
  · subst h
    -- drawing an id leaves the slices alone
    have pushed := slicesOf_push_self t.drawId.2 (Slice.ofNew t.drawId.1 now s)
    rw [drawn] at pushed
    rw [if_pos rfl, entriesOf, append, show s.run = (Slice.ofNew t.drawId.1 now s).run from rfl,
      pushed, List.filter_append, List.map_append]
    simp [entriesOf, Slice.ofNew, Slice.entry, NewSlice.entry]
  · have kept := slicesOf_push_of_ne t.drawId.2 (s := Slice.ofNew t.drawId.1 now s) h
    rw [if_neg h, List.append_nil, entriesOf, append, kept, drawn]
    rfl

theorem entry_query (q : SliceQuery) (t : RunTable) :
    (t.query q).map Slice.entry = upTo q.limit ((entriesOf q.run t).filter q.admits).reverse := by
  have accepted : q.accepts = fun s => (q.admits ∘ Slice.entry) s && s.run == q.run := by
    funext s
    exact (q.accepts_eq s).trans (Bool.and_comm ..)
  rw [query, map_upTo, List.map_reverse, entriesOf, List.filter_map, List.filter_filter, accepted]

end RunTable

instance : LogStore RunTable where
  entries := RunTable.entriesOf
  append_ok {s now st st' id} h _ run := by
    obtain rfl : (st.append s now).2 = st' := congrArg Prod.snd h
    exact RunTable.entriesOf_append s now st run
  append_error h := absurd (congrArg Prod.fst h) (by simp [MemoryStore.append])
  query_keeps _ _ _ := rfl
  query_ok {q st st' found} h _ := by
    obtain rfl : st.query q = found := Except.ok.inj (congrArg Prod.fst h)
    exact RunTable.entry_query q st
  history_keeps _ _ _ := rfl
  history_ok {run st st' found} h := by
    obtain rfl : st.history run = found := Except.ok.inj (congrArg Prod.fst h)
    -- a history is the query without filters, turned round
    have listed := RunTable.entry_query { run } st
    rw [RunTable.history, List.map_reverse, listed, upTo, List.reverse_reverse]
    exact List.filter_eq_self.mpr fun _ _ => rfl

/-! ## 5. The durable store -/

theorem map_of_mapM_ok {α β γ ε : Type} {f : α → Except ε β} {g : β → γ} {k : α → γ}
    (step : ∀ a b, f a = .ok b → g b = k a) {l : List α} {l' : List β} (h : l.mapM f = .ok l') :
    l'.map g = l.map k := by
  induction l generalizing l' with
  | nil =>
    cases h
    rfl
  | cons a rest ih =>
    rw [List.mapM_cons] at h
    cases ha : f a with
    | error e =>
      rw [ha] at h
      cases h
    | ok b =>
      cases hrest : rest.mapM f with
      | error e =>
        rw [ha, hrest] at h
        cases h
      | ok bs =>
        rw [ha, hrest] at h
        cases h
        rw [List.map_cons, List.map_cons, step a b ha, ih hrest]

namespace Row

def entry (r : Row) : Entry := ⟨r.step, Classification.ofName r.classification, r.content⟩

theorem entry_toSlice (r : Row) (s : Slice) (h : r.toSlice = .ok s) : s.entry = r.entry := by
  unfold toSlice at h
  split at h
  · cases ht : time r.createdAt with
    | error e =>
      rw [ht] at h
      cases h
    | ok t =>
      rw [ht] at h
      cases h
      rfl
  · cases h

theorem entry_ofNew (id : Nat) (now : Instant) {s : NewSlice} (h : s.classification.Proper) :
    (Row.ofNew id now s).entry = s.entry := by
  rw [entry, ofNew, h]
  rfl

theorem accepted_eq {q : SliceQuery} (h : q.Proper) (r : Row) :
    accepted q r = (r.run == q.run && q.admits r.entry) := by
  have same : (q.classification.all fun c => c.name == r.classification) =
      q.classification.all fun c => c == Classification.ofName r.classification := by
    cases hc : q.classification with
    | none => rfl
    | some c =>
      simp only [Option.all_some]
      rw [Bool.eq_iff_iff, beq_iff_eq, beq_iff_eq]
      exact Classification.name_eq_iff (h c hc) _
  rw [accepted, same, Bool.and_assoc]
  rfl

end Row

namespace RowTable

def entriesOf (run : RunId) (t : RowTable) : List Entry :=
  (t.rows.filter (·.run == run)).map Row.entry

theorem entriesOf_append {s : NewSlice} (h : s.classification.Proper) (now : Instant)
    (t : RowTable) (run : RunId) :
    entriesOf run (t.append s now).2 =
      entriesOf run t ++ if s.run = run then [s.entry] else [] := by
  rw [entriesOf, append, List.filter_append, List.map_append, ← entriesOf]
  congr 1
  by_cases hr : s.run = run
  · simp [Row.ofNew, hr, ← Row.entry_ofNew (t.lastId + 1) now h]
  · simp [Row.ofNew, hr]

theorem entry_query {q : SliceQuery} (h : q.Proper) {t : RowTable} {found : List Slice}
    (hq : t.query q = .ok found) :
    found.map Slice.entry = upTo q.limit ((entriesOf q.run t).filter q.admits).reverse := by
  have accepted : Row.accepted q = fun r => (q.admits ∘ Row.entry) r && r.run == q.run := by
    funext r
    exact (Row.accepted_eq h r).trans (Bool.and_comm ..)
  rw [map_of_mapM_ok Row.entry_toSlice hq, map_upTo, List.map_reverse, entriesOf, List.filter_map,
    List.filter_filter, accepted]

end RowTable

instance : LogStore RowTable where
  entries := RowTable.entriesOf
  append_ok {s now st st' id} h proper run := by
    obtain rfl : (st.append s now).2 = st' := congrArg Prod.snd h
    exact RowTable.entriesOf_append proper now st run
  append_error h := absurd (congrArg Prod.fst h) (by simp [MemoryStore.append])
  query_keeps _ _ _ := rfl
  query_ok h proper := RowTable.entry_query proper (congrArg Prod.fst h)
  history_keeps _ _ _ := rfl
  history_ok h := map_of_mapM_ok Row.entry_toSlice (congrArg Prod.fst h)

end Memory

/-! ## 6. A store that fails -/

namespace Rehearsal.FaultyStore

open Memory

variable {σ : Type} [MemoryStore σ]

theorem append_eq (s : NewSlice) (now : Instant) (f : FaultyStore σ) :
    (MemoryStore.append s now f = (.error f.writeError, { f with writes := f.writes + 1 })) ∨
      (MemoryStore.append s now f = ((MemoryStore.append s now f.store).1,
        { f with writes := f.writes + 1, store := (MemoryStore.append s now f.store).2 })) := by
  by_cases h : f.writeFaults.hit (f.writes + 1)
  · exact .inl (if_pos h)
  · exact .inr (if_neg h)

omit [MemoryStore σ] in
theorem reading_eq {α : Type} (f : FaultyStore σ) (read : σ → Except StoreError α × σ) :
    f.reading read = (.error f.readError, { f with reads := f.reads + 1 }) ∨
      f.reading read = ((read f.store).1,
        { f with reads := f.reads + 1, store := (read f.store).2 }) := by
  by_cases h : f.readFaults.hit (f.reads + 1)
  · exact .inl (if_pos h)
  · exact .inr (if_neg h)

/-- An append that a failing store lets through was one of the store inside. -/
theorem append_inside {s : NewSlice} {now : Instant} {f f' : FaultyStore σ} {id : Nat}
    (h : MemoryStore.append s now f = (.ok id, f')) :
    MemoryStore.append s now f.store = (.ok id, f'.store) := by
  rcases append_eq s now f with heq | heq
  · cases heq.symm.trans h
  · have := heq.symm.trans h
    rw [Prod.mk.injEq] at this
    obtain ⟨hid, rfl⟩ := this
    exact Prod.ext hid rfl

omit [MemoryStore σ] in
theorem reading_inside {α : Type} {f f' : FaultyStore σ} {a : α}
    {read : σ → Except StoreError α × σ} (h : f.reading read = (.ok a, f')) :
    read f.store = (.ok a, f'.store) := by
  rcases f.reading_eq read with heq | heq
  · cases heq.symm.trans h
  · have := heq.symm.trans h
    rw [Prod.mk.injEq] at this
    obtain ⟨ha, rfl⟩ := this
    exact Prod.ext ha rfl

theorem entries_reading [LogStore σ] {α : Type} (f : FaultyStore σ)
    (read : σ → Except StoreError α × σ) (run : RunId)
    (keeps : LogStore.entries run (read f.store).2 = LogStore.entries run f.store) :
    LogStore.entries run (f.reading read).2.store = LogStore.entries run f.store := by
  rcases f.reading_eq read with h | h <;> rw [h]
  exact keeps

instance [LogStore σ] : LogStore (FaultyStore σ) where
  entries run f := LogStore.entries run f.store
  append_ok h proper run := LogStore.append_ok (append_inside h) proper run
  append_error {s now f f' e} h run := by
    rcases append_eq s now f with heq | heq
    · -- the fault is injected, and the store inside is not asked
      obtain rfl := (Prod.mk.inj (heq.symm.trans h)).2
      rfl
    · obtain ⟨he, rfl⟩ := Prod.mk.inj (heq.symm.trans h)
      exact LogStore.append_error (Prod.ext he rfl) run
  query_keeps q f run := entries_reading f _ run (LogStore.query_keeps q f.store run)
  query_ok h proper := LogStore.query_ok (reading_inside h) proper
  history_keeps of f run := entries_reading f _ run (LogStore.history_keeps of f.store run)
  history_ok h := LogStore.history_ok (reading_inside h)

end Rehearsal.FaultyStore
end Runbook
